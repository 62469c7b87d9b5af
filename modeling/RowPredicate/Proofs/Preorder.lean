import RowPredicate.Proofs.Order

/-!
# The laws of a collation

A collation puts the values of each type in a total preorder: distinct values may stand at one place, as
texts do that differ in letter case only.

* `TotalPreorder`: the laws of comparing values of one type, and of the equality that goes with it;
* `totalPreorder`: every collation obeys them on every type, as it compares places;
* `equal_double_iff`, `equal_text_iff`: the values that stand at one place;
* `compare_preorder`: these laws, and those on NULL and on values of different types.
-/

namespace RowPredicate.Collation

variable {k : Collation} {a b c : Value} {t : DataType}

/-- Comparing the values of one type is a total preorder, and two values are equal if neither comes before
the other. -/
structure TotalPreorder (k : Collation) (t : DataType) : Prop where
  /-- Any two values compare, and exchanging them reverses the answer. -/
  total : ∀ a b, a.type? = some t → b.type? = some t →
    ∃ o, k.compare a b = .ok o ∧ k.compare b a = .ok o.swap
  refl : ∀ a, a.type? = some t → k.compare a a = .ok .eq
  trans : ∀ a b c, a.type? = some t → b.type? = some t → c.type? = some t →
    k.compare a b ≠ .ok .gt → k.compare b c ≠ .ok .gt → k.compare a c ≠ .ok .gt
  equal_iff : ∀ a b, a.type? = some t → b.type? = some t →
    (k.equal a b = .ok true ↔ k.compare a b = .ok .eq) ∧
      (k.equal a b = .ok false ↔ k.compare a b ≠ .ok .eq)
  equal_refl : ∀ a, a.type? = some t → k.equal a a = .ok true
  equal_symm : ∀ a b, a.type? = some t → b.type? = some t →
    k.equal a b = .ok true → k.equal b a = .ok true
  equal_trans : ∀ a b c, a.type? = some t → b.type? = some t → c.type? = some t →
    k.equal a b = .ok true → k.equal b c = .ok true → k.equal a c = .ok true
  /-- Equal values stand in the same way to every value. -/
  congr : ∀ a b c, a.type? = some t → b.type? = some t → c.type? = some t →
    k.equal a b = .ok true → k.compare a c = k.compare b c ∧ k.compare c a = k.compare c b

theorem compare_eq_ok_iff {o : Ordering} (ha : a.type? = some t) (hb : b.type? = some t) :
    k.compare a b = .ok o ↔ cmp (k.place a) (k.place b) = o := by
  rw [compare_eq_cmp ha hb, Except.ok.injEq]

theorem compare_ne_gt_iff (ha : a.type? = some t) (hb : b.type? = some t) :
    k.compare a b ≠ .ok .gt ↔ k.place a ≤ k.place b := by
  rw [Ne, compare_eq_ok_iff ha hb, cmp_eq_gt_iff, not_lt]

theorem equal_eq_true_iff (ha : a.type? = some t) (hb : b.type? = some t) :
    k.equal a b = .ok true ↔ k.place a = k.place b := by
  rw [equal_eq_decide ha hb, Except.ok.injEq, decide_eq_true_iff]

/-- Comparing is comparing places, which stand in a linear order. -/
theorem totalPreorder (k : Collation) (t : DataType) : k.TotalPreorder t where
  total a b ha hb := by
    refine ⟨cmp (k.place a) (k.place b), compare_eq_cmp ha hb, ?_⟩
    rw [compare_eq_cmp hb ha, cmp_swap]
  refl a ha := by
    rw [compare_eq_cmp ha ha, cmp_self_eq_eq]
  trans a b c ha hb hc hab hbc := by
    rw [compare_ne_gt_iff ha hb] at hab
    rw [compare_ne_gt_iff hb hc] at hbc
    exact (compare_ne_gt_iff ha hc).2 (hab.trans hbc)
  equal_iff a b ha hb := by
    have hplace : k.compare a b = .ok .eq ↔ k.place a = k.place b := by
      rw [compare_eq_ok_iff ha hb, cmp_eq_eq_iff]
    constructor
    · rw [hplace, equal_eq_true_iff ha hb]
    · rw [Ne, hplace, equal_eq_decide ha hb, Except.ok.injEq, decide_eq_false_iff_not]
  equal_refl a ha := (equal_eq_true_iff ha ha).2 rfl
  equal_symm a b ha hb hab := by
    rw [equal_eq_true_iff ha hb] at hab
    exact (equal_eq_true_iff hb ha).2 hab.symm
  equal_trans a b c ha hb hc hab hbc := by
    rw [equal_eq_true_iff ha hb] at hab
    rw [equal_eq_true_iff hb hc] at hbc
    exact (equal_eq_true_iff ha hc).2 (hab.trans hbc)
  congr a b c ha hb hc hab := by
    rw [equal_eq_true_iff ha hb] at hab
    constructor
    · rw [compare_eq_cmp ha hc, compare_eq_cmp hb hc, hab]
    · rw [compare_eq_cmp hc ha, compare_eq_cmp hc hb, hab]

/-! ## Values at one place -/

/-- Two doubles are equal if they are one pattern of bits: zeros of different signs are not, and a NaN
equals itself. -/
theorem equal_double_iff {d d' : Double} :
    k.equal (.double d) (.double d') = .ok true ↔ d.bits = d'.bits := by
  rw [equal_eq_true_iff (t := .double) rfl rfl]
  constructor
  · intro h
    have hkey : d.key = d'.key := List.singleton_inj.1 h
    rw [Double.key_inj.1 hkey]
  · intro h
    obtain rfl : d = d' := by
      cases d
      cases d'
      exact congrArg Double.mk h
    rfl

/-- Two texts are equal if the same text stands for both. -/
theorem equal_text_iff {s s' : String} :
    k.equal (.varchar s) (.varchar s') = .ok true ↔ k.fold s = k.fold s' := by
  have hinj : Function.Injective fun c : Char => (c.toNat : Int) := fun c d h =>
    Char.toNat_inj.1 (Int.ofNat.inj h)
  rw [equal_eq_true_iff (t := .varchar) rfl rfl]
  exact hinj.list_map.eq_iff

/-! ## All laws -/

theorem equal_null {v : Value} (hv : v ≠ .null) :
    k.equal .null v = .ok false ∧ k.equal v .null = .ok false := by
  cases v with
  | null => exact absurd rfl hv
  | boolean | int | bigint | double | varchar => exact ⟨rfl, rfl⟩

/-- On each type, a collation is a total preorder with its equality. NULL equals NULL and nothing else, and
only values other than NULL and of one type can be put in order. Doubles are equal if their bits are, and
texts if they agree, letter case aside where the collation disregards it. -/
theorem compare_preorder (k : Collation) :
    (∀ t, k.TotalPreorder t) ∧
    (k.equal .null .null = .ok true ∧
      ∀ v, v ≠ .null → k.equal .null v = .ok false ∧ k.equal v .null = .ok false) ∧
    (∀ a b, (∃ e, k.compare a b = .error e) ↔ a = .null ∨ b = .null ∨ a.type? ≠ b.type?) ∧
    (∀ d d' : Double, k.equal (.double d) (.double d') = .ok true ↔ d.bits = d'.bits) ∧
    ∀ s s' : String, k.equal (.varchar s) (.varchar s') = .ok true ↔
      if k.ignoreCase then Text.lower s.toList = Text.lower s'.toList else s = s' := by
  refine ⟨totalPreorder k, ⟨rfl, fun _ => equal_null⟩, fun _ _ => compare_eq_error_iff,
    fun _ _ => equal_double_iff, fun s s' => ?_⟩
  rw [equal_text_iff, fold, fold]
  cases k.ignoreCase with
  | true => exact Iff.rfl
  | false => exact String.toList_inj

end RowPredicate.Collation
