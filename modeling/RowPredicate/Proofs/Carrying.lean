import RowPredicate.Proofs.Meaning
import RowPredicate.Proofs.WholeDouble

/-!
# Comparing at another type

What a comparison says of two values depends on the type at which they are compared: as numbers `'01'`
and `'1'` are equal, as integers 2.4 and 2 are.

* `DataType.Contains`: the whole numbers that a type keeps apart, and `DataType.number`: such a number
  as a value of the type;
* `convert_number`: conversion between types that contain a number keeps it;
* `ComparePolicy.Reflexive`, `ComparePolicy.OrdersNumbers`: the laws of a policy that count here, which
  every collation obeys;
* `Carries`: two values of which a comparison at one type says the same as at another
  (`relate_of_carries`).
-/

namespace RowPredicate

/-- The whole numbers that a type represents without loss. -/
def DataType.Contains : DataType → Int → Prop
  | .boolean, n => n = 0 ∨ n = 1
  | .int, n => -0x80000000 ≤ n ∧ n < 0x80000000
  | .bigint, n => -0x8000000000000000 ≤ n ∧ n < 0x8000000000000000
  | .double, n => n.natAbs < 2 ^ 53
  | .varchar, _ => False

/-- A whole number among the values of a type that contains it. -/
def DataType.number : DataType → Int → Value
  | .boolean, n => .boolean (n != 0)
  | .int, n => .int (Int32.ofInt n)
  | .bigint, n => .bigint (Int64.ofInt n)
  | .double, n => .double (.ofInt n)
  | .varchar, _ => .null

section

variable {s t : DataType} {m n : Int}

theorem type?_number (h : t.Contains n) : (t.number n).type? = some t := by
  cases t with
  | boolean | int | bigint | double => rfl
  | varchar => exact h.elim

theorem cmp_place_number {k : Collation} (hm : t.Contains m) (hn : t.Contains n) :
    cmp (k.place (t.number m)) (k.place (t.number n)) = cmp m n := by
  cases t with
  | boolean =>
    refine (Place.cmp_singleton _ _).trans ?_
    rcases hm with rfl | rfl <;> rcases hn with rfl | rfl <;> decide
  | int =>
    refine (Place.cmp_singleton _ _).trans ?_
    rw [Int32.toInt_ofInt_of_le hm.1 hm.2, Int32.toInt_ofInt_of_le hn.1 hn.2]
  | bigint =>
    refine (Place.cmp_singleton _ _).trans ?_
    rw [Int64.toInt_ofInt_of_le hm.1 hm.2, Int64.toInt_ofInt_of_le hn.1 hn.2]
  | double => exact (Place.cmp_singleton _ _).trans (Double.cmp_key_ofInt hm hn)
  | varchar => exact hm.elim

theorem toInteger?_number (h : t.Contains n) : (t.number n).toInteger? = some n := by
  cases t with
  | boolean => rcases h with rfl | rfl <;> rfl
  | int => exact congrArg some (Int32.toInt_ofInt_of_le h.1 h.2)
  | bigint => exact congrArg some (Int64.toInt_ofInt_of_le h.1 h.2)
  | double => exact Double.nearestInt?_ofInt h
  | varchar => exact h.elim

/-- Conversion between types that contain a number keeps the number. -/
theorem convert_number (hs : s.Contains n) (ht : t.Contains n) :
    (s.number n).convert t = .ok (t.number n) := by
  have hinteger := toInteger?_number hs
  have hnull : s.number n ≠ .null := Value.ne_null_of_type? (type?_number hs)
  have hconvert : (s.number n).convert? t = some (t.number n) := by
    rw [Value.convert?_of_ne_null hnull]
    cases t with
    | boolean =>
      cases s with
      | varchar => exact hs.elim
      | boolean | int | bigint | double => rcases ht with rfl | rfl <;> decide +kernel
    | int =>
      have hfits : Value.int32? n = some (Int32.ofInt n) := if_pos ht
      dsimp only
      rw [hinteger, Option.bind_some, hfits]
      rfl
    | bigint =>
      have hfits : Value.int64? n = some (Int64.ofInt n) := if_pos ht
      dsimp only
      rw [hinteger, Option.bind_some, hfits]
      rfl
    | double =>
      cases s with
      | boolean => rcases hs with rfl | rfl <;> rfl
      | int => simp [DataType.number, Value.toDouble?, Int32.toInt_ofInt_of_le hs.1 hs.2]
      | bigint => simp [DataType.number, Value.toDouble?, Int64.toInt_ofInt_of_le hs.1 hs.2]
      | double => rfl
      | varchar => exact hs.elim
    | varchar => exact ht.elim
  exact Value.convert_eq_ok_iff.2 hconvert

/-- The value is one whole number at both types. -/
def Value.IsNumberAt (v : Value) (s t : DataType) : Prop :=
  ∃ n, s.Contains n ∧ t.Contains n ∧ v.convert s = .ok (s.number n) ∧ v.convert t = .ok (t.number n)

theorem isNumberAt_number {r : DataType} (hr : r.Contains n) (hs : s.Contains n) (ht : t.Contains n) :
    (r.number n).IsNumberAt s t :=
  ⟨n, hs, ht, convert_number hr hs, convert_number hr ht⟩

end

/-! ## Laws -/

namespace ComparePolicy

/-- A value equals itself, and does not come before itself. -/
class Reflexive (p : ComparePolicy) : Prop where
  equal_self : ∀ v, p.equal v v = .ok true
  compare_self : ∀ v, v ≠ .null → p.compare v v = .ok .eq

/-- The whole numbers of a type are in their order. -/
class OrdersNumbers (p : ComparePolicy) : Prop where
  equal_number : ∀ (t : DataType) m n, t.Contains m → t.Contains n →
    p.equal (t.number m) (t.number n) = .ok (decide (m = n))
  compare_number : ∀ (t : DataType) m n, t.Contains m → t.Contains n →
    p.compare (t.number m) (t.number n) = .ok (cmp m n)

variable {p : ComparePolicy} {op : Comparator}

theorem holds_self [p.Reflexive] {v : Value} (h : op.isNullSafe = true ∨ v ≠ .null) :
    p.holds op v v = .ok (op.accepts .eq) := by
  cases op with
  | equal | equalNullSafe => exact Reflexive.equal_self v
  | notEqual | notEqualNullSafe =>
    rw [holds, Reflexive.equal_self v]
    rfl
  | greater | greaterOrEqual | less | lessOrEqual =>
    have hv : v ≠ .null := h.resolve_left (by decide)
    rw [holds, Reflexive.compare_self v hv]
    rfl

theorem holds_number [p.OrdersNumbers] {t : DataType} {m n : Int} (hm : t.Contains m)
    (hn : t.Contains n) : p.holds op (t.number m) (t.number n) = .ok (op.accepts (cmp m n)) := by
  have hequal : decide (m = n) = (cmp m n == .eq) := by
    rw [Bool.eq_iff_iff, decide_eq_true_iff, beq_iff_eq, cmp_eq_eq_iff]
  cases op with
  | equal | equalNullSafe =>
    rw [holds, OrdersNumbers.equal_number t m n hm hn, hequal]
    rfl
  | notEqual | notEqualNullSafe =>
    rw [holds, OrdersNumbers.equal_number t m n hm hn, hequal]
    rfl
  | greater | greaterOrEqual | less | lessOrEqual =>
    rw [holds, OrdersNumbers.compare_number t m n hm hn]
    rfl

end ComparePolicy

instance (k : Collation) : k.policy.Reflexive where
  equal_self v := by
    cases hv : v.type? with
    | none =>
      obtain rfl := Value.type?_eq_none_iff.1 hv
      rfl
    | some t => exact (Collation.equal_eq_decide hv hv).trans (by simp)
  compare_self v hv := by
    cases ht : v.type? with
    | none => exact absurd (Value.type?_eq_none_iff.1 ht) hv
    | some t => exact (Collation.compare_eq_cmp ht ht).trans (by rw [cmp_self_eq_eq])

instance (k : Collation) : k.policy.OrdersNumbers where
  equal_number t m n hm hn := by
    have hplace : k.place (t.number m) = k.place (t.number n) ↔ m = n := by
      rw [← cmp_eq_eq_iff, cmp_place_number hm hn, cmp_eq_eq_iff]
    refine (Collation.equal_eq_decide (type?_number hm) (type?_number hn)).trans ?_
    exact congrArg Except.ok (decide_eq_decide.2 hplace)
  compare_number t m n hm hn := by
    refine (Collation.compare_eq_cmp (type?_number hm) (type?_number hn)).trans ?_
    rw [cmp_place_number hm hn]

/-! ## Carrying over -/

/-- What a policy says of two values when they are compared at the first type carries over to the second
one: the types agree, both values are whole numbers that both types contain, the values are one, or one of
them is NULL. All but the first take a law that the policy obeys. A type may be unknown, and then the
values decide. -/
inductive Carries (p : ComparePolicy) : Option DataType → Option DataType → Value → Value → Prop
  | typed (t : Option DataType) (a b : Value) : Carries p t t a b
  | numbers {s t : DataType} {a b : Value} (hp : p.OrdersNumbers) (ha : a.IsNumberAt s t)
      (hb : b.IsNumberAt s t) : Carries p (some s) (some t) a b
  | one {t : DataType} {a w : Value} (hp : p.Reflexive) (s : Option DataType)
      (h : a.convert t = .ok w) : Carries p s (some t) a a
  | nullLeft {t : DataType} {b w : Value} (hp : p.KeepsNull) (s : Option DataType)
      (h : b.convert t = .ok w) : Carries p s (some t) .null b
  | nullRight {t : DataType} {a w : Value} (hp : p.KeepsNull) (s : Option DataType)
      (h : a.convert t = .ok w) : Carries p s (some t) a .null

namespace Context

variable {ctx : Context} {op : Comparator} {s t : Option DataType} {a b : Value} {x : Bool}

theorem relate_of_carries_null [ctx.policy.KeepsNull] {t : DataType} {u v : Value}
    (hop : op.isNullSafe = true) (hnull : (a.isNull || b.isNull) = true) (ha : a.convert t = .ok u)
    (hb : b.convert t = .ok v) (h : ctx.relate op s a b = .ok x) :
    ctx.relate op (some t) a b = .ok x := by
  have hholds := holds_of_relate hop hnull h
  rw [ComparePolicy.holds_of_null hop hnull] at hholds
  have hna := Value.isNull_of_convert ha
  have hnb := Value.isNull_of_convert hb
  have hnull' : (u.isNull || v.isNull) = true := by rw [hna, hnb, hnull]
  simp only [relate, Option.some_or, ha, hb, bind, Except.bind]
  rw [ComparePolicy.holds_of_null hop hnull', hna, hnb, hholds]

theorem relate_of_carries_numbers [ctx.policy.OrdersNumbers] {s t : DataType}
    (ha : a.IsNumberAt s t) (hb : b.IsNumberAt s t) (h : ctx.relate op (some s) a b = .ok x) :
    ctx.relate op (some t) a b = .ok x := by
  obtain ⟨m, hms, hmt, has, hat⟩ := ha
  obtain ⟨n, hns, hnt, hbs, hbt⟩ := hb
  simp only [relate, Option.some_or, has, hbs, bind, Except.bind] at h
  simp only [relate, Option.some_or, hat, hbt, bind, Except.bind]
  rw [ComparePolicy.holds_number hms hns] at h
  rw [ComparePolicy.holds_number hmt hnt, h]

/-- A value that is compared with itself is converted to itself on both sides. -/
theorem relate_self [ctx.policy.Reflexive] (hsafe : op.isNullSafe = true ∨ a ≠ .null)
    (h : ctx.relate op s a a = .ok x) : x = op.accepts .eq := by
  unfold relate at h
  split at h
  · next t _ =>
    cases hu : a.convert t with
    | error e => simp [hu, bind, Except.bind] at h
    | ok u =>
      have hne : op.isNullSafe = true ∨ u ≠ .null := by
        rwa [Ne, ← Value.isNull_iff, Value.isNull_of_convert hu, Value.isNull_iff]
      simp only [hu, bind, Except.bind] at h
      rw [ComparePolicy.holds_self hne] at h
      exact (Except.ok.inj h).symm
  · rw [ComparePolicy.holds_self hsafe] at h
    exact (Except.ok.inj h).symm

theorem relate_of_carries_one [ctx.policy.Reflexive] {t : DataType} {w : Value}
    (hsafe : op.isNullSafe = true ∨ a ≠ .null) (hw : a.convert t = .ok w)
    (h : ctx.relate op s a a = .ok x) : ctx.relate op (some t) a a = .ok x := by
  have hne : op.isNullSafe = true ∨ w ≠ .null := by
    rwa [Ne, ← Value.isNull_iff, Value.isNull_of_convert hw, Value.isNull_iff]
  simp only [relate, Option.some_or, hw, bind, Except.bind]
  rw [ComparePolicy.holds_self hne, relate_self hsafe h]

/-- Where a comparison carries over to another type, it is the same at that type. -/
theorem relate_of_carries (hc : Carries ctx.policy s t a b)
    (hnull : op.isNullSafe = true ∨ (a ≠ .null ∧ b ≠ .null)) (h : ctx.relate op s a b = .ok x) :
    ctx.relate op t a b = .ok x := by
  cases hc with
  | typed => exact h
  | numbers _ ha hb => exact relate_of_carries_numbers ha hb h
  | one _ _ hw => exact relate_of_carries_one (hnull.imp_right And.left) hw h
  | nullLeft _ _ hw =>
    have hop : op.isNullSafe = true := hnull.resolve_right fun hne => hne.1 rfl
    exact relate_of_carries_null hop rfl (Value.convert_null _) hw h
  | nullRight _ _ hw =>
    have hop : op.isNullSafe = true := hnull.resolve_right fun hne => hne.2 rfl
    exact relate_of_carries_null hop (Bool.or_true _) hw (Value.convert_null _) h

end Context

/-- Where both expressions have values, their comparison carries over to the given type. -/
def Expr.CarriesTo (ctx : Context) (t : Option DataType) (l r : Expr) : Prop :=
  ∀ a b, l.eval ctx = .ok a → r.eval ctx = .ok b → Carries ctx.policy (ctx.commonType? l r) t a b

end RowPredicate
