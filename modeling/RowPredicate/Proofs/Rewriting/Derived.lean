import RowPredicate.Proofs.Carrying
import RowPredicate.Proofs.Conjuncts
import RowPredicate.Proofs.Rewriting.Rules

/-!
# Derived equalities

From `a = x AND x = b` simplification derives `a = b`. Each of the three equalities is made at the type
of its own pair, and what is equal at one type need not be equal at another.

* `Equal`: two operands that have the same place at a type (`Equal.symm`, `Equal.trans`);
* `equal_of_truth`: an equality that is TRUE and carries over to a type makes its operands equal there;
* `eval_derived`: if both equalities carry over to the type of the derived one, this is TRUE where they
  are, and takes no row away;
* `equal_row_lost`: a row that the derived equality takes away, as two texts that are equal to one
  number are not equal to each other.
-/

namespace RowPredicate

namespace Expr

variable {ctx : Context} {k : Collation} {t : DataType} {p q d x x' a b : Expr}

/-- The type at which the operands of a comparison are compared, as far as it is known without a row. -/
def comparedAt? (ctx : Context) : Expr → Option DataType
  | .compare _ l r => ctx.commonType? l r
  | _ => none

/-- What the comparison says carries over to the given type. -/
def Carried (ctx : Context) (t : Option DataType) (e : Expr) : Prop :=
  ∀ op l r, e = .compare op l r → CarriesTo ctx t l r

/-- The operands in which the two equalities agree share the slots of parameters, and have zeros of one
sign. -/
def AgreeInShared (p q : Expr) : Prop :=
  ∀ x x' a b, Equates p x a → Equates q x' b → x.same x' = true →
    SharedSlots x x' ∧ x.zeros true = x'.zeros true

/-- Both expressions have values, and these have one place among the values of the type. -/
def Equal (k : Collation) (ctx : Context) (t : DataType) (a b : Expr) : Prop :=
  ∃ v w v' w', a.eval ctx = .ok v ∧ b.eval ctx = .ok w ∧ v ≠ .null ∧ w ≠ .null ∧
    v.convert t = .ok v' ∧ w.convert t = .ok w' ∧ k.place v' = k.place w'

theorem Equal.symm (h : Equal k ctx t a b) : Equal k ctx t b a := by
  obtain ⟨v, w, v', w', hv, hw, hnv, hnw, hv', hw', hplace⟩ := h
  exact ⟨w, v, w', v', hw, hv, hnw, hnv, hw', hv', hplace.symm⟩

theorem Equal.trans (h : Equal k ctx t a x) (h' : Equal k ctx t x b) : Equal k ctx t a b := by
  obtain ⟨v, u, v', u', hv, hu, hnv, -, hv', hu', hplace⟩ := h
  obtain ⟨u₂, w, u₂', w', hu₂, hw, -, hnw, hu₂', hw', hplace'⟩ := h'
  obtain rfl := Except.ok.inj (hu.symm.trans hu₂)
  obtain rfl := Except.ok.inj (hu'.symm.trans hu₂')
  exact ⟨v, w, v', w', hv, hw, hnv, hnw, hv', hw', hplace.trans hplace'⟩

theorem Equal.congr_left (h : Equal k ctx t x b) (hx : x.eval ctx = x'.eval ctx) : Equal k ctx t x' b := by
  obtain ⟨v, w, v', w', hv, hrest⟩ := h
  exact ⟨v, w, v', w', hx ▸ hv, hrest⟩

/-- An operand with a value has a type, so its comparisons are made at a type. -/
theorem exists_commonType?_eq {v : Value} (ha : a.eval ctx = .ok v) (hv : v ≠ .null) :
    ∃ t, ctx.commonType? a b = some t := by
  apply Option.ne_none_iff_exists'.1
  intro hnone
  rw [Context.commonType?, DataType.higher?_eq_none_iff] at hnone
  exact type?_ne_none_of_eval ha hv hnone.1

/-- Operands that are equal at the type of their pair make an equality TRUE. -/
theorem eval_of_equal (hk : ctx.policy = k.policy) (ht : ctx.commonType? a b = some t)
    (h : Equal k ctx t a b) :
    (compare .equal a b).eval ctx = .ok (.boolean true) := by
  obtain ⟨v, w, v', w', hv, hw, hnv, hnw, hv', hw', hplace⟩ := h
  have hrelate : ctx.relate .equal (some t) v w = .ok true := by
    rw [Context.relate_eq_ok_iff hk hnv hnw]
    refine ⟨v', w', hv', hw', ?_⟩
    rw [hplace, cmp_self_eq_eq]
    rfl
  rw [eval, hv, hw, ht, Context.compare_ok, if_neg fun h => h.1.elim hnv hnw, hrelate]
  rfl

theorem equal_of_compare {l r : Expr} (hk : ctx.policy = k.policy)
    (h : (compare .equal l r).truth ctx = .ok .yes) (hc : CarriesTo ctx (some t) l r) :
    Equal k ctx t l r := by
  rw [truth_compare] at h
  obtain ⟨v, w, hv, hw, hrelate, hnull⟩ := Context.relate_of_compare h
  have hne := hnull.resolve_left (by decide)
  have hcarried := Context.relate_of_carries (hc v w hv hw) hnull hrelate
  rw [Context.relate_eq_ok_iff hk hne.1 hne.2] at hcarried
  obtain ⟨v', w', hv', hw', haccepts⟩ := hcarried
  refine ⟨v, w, v', w', hv, hw, hne.1, hne.2, hv', hw', ?_⟩
  exact (cmp_eq_eq_iff _ _).1 (beq_iff_eq.1 haccepts)

/-- An equality that is TRUE and carries over to a type makes its operands equal there. -/
theorem equal_of_truth (hk : ctx.policy = k.policy) (he : Equates p x a) (h : p.truth ctx = .ok .yes)
    (hc : Carried ctx (some t) p) : Equal k ctx t x a := by
  cases he with
  | direct => exact equal_of_compare hk h (hc _ _ _ rfl)
  | reversed => exact (equal_of_compare hk h (hc _ _ _ rfl)).symm

theorem exists_value_of_truth (he : Equates p x a) (h : p.truth ctx = .ok .yes) :
    ∃ v, a.eval ctx = .ok v ∧ v ≠ .null := by
  cases he with
  | direct =>
    rw [truth_compare] at h
    obtain ⟨v, w, -, hw, -, hnull⟩ := Context.relate_of_compare h
    exact ⟨w, hw, (hnull.resolve_left (by decide)).2⟩
  | reversed =>
    rw [truth_compare] at h
    obtain ⟨v, w, hv, -, -, hnull⟩ := Context.relate_of_compare h
    exact ⟨v, hv, (hnull.resolve_left (by decide)).1⟩

theorem truth_of_eval_true {e : Expr} (h : e.eval ctx = .ok (.boolean true)) :
    e.truth ctx = .ok .yes := by
  rw [truth, h]
  rfl

/-- Where two equalities carry over to the type of the one that is derived from them, this is TRUE under a
collation if they are, and the condition with it selects the row as well. -/
theorem eval_derived (hk : ctx.policy = k.policy) (h : transitive? p q = some d) (hshared : AgreeInShared p q)
    (hp : Carried ctx (d.comparedAt? ctx) p) (hq : Carried ctx (d.comparedAt? ctx) q)
    (hpt : p.eval ctx = .ok (.boolean true)) (hqt : q.eval ctx = .ok (.boolean true)) :
    d.eval ctx = .ok (.boolean true) ∧
      (connect .and (connect .and p q) d).selects ctx = .ok true := by
  obtain ⟨x, x', a, b, hpe, hqe, hsame, -, rfl⟩ := transitive?_eq_some h
  have hpt := truth_of_eval_true hpt
  have hqt := truth_of_eval_true hqt
  obtain ⟨v, hv, hnull⟩ := exists_value_of_truth hpe hpt
  obtain ⟨t, ht⟩ := exists_commonType?_eq (b := b) hv hnull
  rw [comparedAt?, ht] at hp hq
  obtain ⟨hslot, hzeros⟩ := hshared x x' a b hpe hqe hsame
  have hvalue : x.eval ctx = x'.eval ctx := (eval_of_same hslot hsame hzeros).resolve_right (by simp)
  have hax : Equal k ctx t a x := (equal_of_truth hk hpe hpt hp).symm
  have hxb : Equal k ctx t x b := (equal_of_truth hk hqe hqt hq).congr_left hvalue.symm
  have hd := eval_of_equal hk ht (hax.trans hxb)
  refine ⟨hd, ?_⟩
  have hboth := truth_and_eq_yes_iff.2 ⟨hpt, hqt⟩
  have hall := truth_and_eq_yes_iff.2 ⟨hboth, truth_of_eval_true hd⟩
  exact selects_of_truth hall

end Expr

/-! ## A row kept and a row lost -/

def partId : Column := ⟨⟨0⟩, "P", "ID", 0, .int⟩

def partRatio : Column := ⟨⟨0⟩, "P", "RATIO", 1, .double⟩

def partCode : Column := ⟨⟨0⟩, "P", "CODE", 2, .bigint⟩

/-- A row of parts, without parameters. -/
def partRow (values : List Value) : Context :=
  ⟨Collation.policy ⟨false⟩, .empty, Binding.empty.bind ⟨0⟩ values⟩

def idEqualsRatio : Expr := .compare .equal (.column partId) (.column partRatio)

def idEqualsCode : Expr := .compare .equal (.column partId) (.column partCode)

/-- `ID = CODE` is a comparison of integers, and the derived `RATIO = CODE` one of doubles. -/
theorem eval_derived_ratio :
    (Expr.compare .equal (.column partRatio) (.column partCode)).eval
        (partRow [.int 3, .double (.ofInt 3), .bigint 3]) = .ok (.boolean true) ∧
      (Expr.connect .and (.connect .and idEqualsRatio idEqualsCode)
        (.compare .equal (.column partRatio) (.column partCode))).selects
          (partRow [.int 3, .double (.ofInt 3), .bigint 3]) = .ok true := by
  have hshared : Expr.AgreeInShared idEqualsRatio idEqualsCode := by
    intro x x' a b hx hx' _
    unfold idEqualsRatio at hx
    unfold idEqualsCode at hx'
    cases hx <;> cases hx' <;> exact ⟨fun p hp => by simp [Expr.parameters] at hp, rfl⟩
  refine Expr.eval_derived (k := ⟨false⟩) (p := idEqualsRatio) (q := idEqualsCode) rfl rfl hshared ?_ ?_
    ?_ ?_
  · intro op l r he a b _ _
    cases he
    exact .typed _ _ _
  · intro op l r he a b ha hb
    cases he
    cases ha
    cases hb
    have hthree :
        DataType.int.Contains 3 ∧ DataType.bigint.Contains 3 ∧ DataType.double.Contains 3 := by
      simp [DataType.Contains]
    exact .numbers (inferInstanceAs (Collation.policy ⟨false⟩).OrdersNumbers)
      (isNumberAt_number hthree.1 hthree.2.1 hthree.2.2)
      (isNumberAt_number hthree.2.1 hthree.2.1 hthree.2.2)
  · decide +kernel
  · decide +kernel

def itemName : Column := ⟨⟨0⟩, "I", "NAME", 0, .varchar⟩

def itemId : Column := ⟨⟨0⟩, "I", "ID", 1, .int⟩

def itemCode : Column := ⟨⟨0⟩, "I", "CODE", 2, .varchar⟩

def nameEqualsId : Expr := .compare .equal (.column itemName) (.column itemId)

def idEqualsItemCode : Expr := .compare .equal (.column itemId) (.column itemCode)

/-- Both texts are read as the number 1, but they are not equal as texts. -/
theorem equal_row_lost :
    Expr.transitive? nameEqualsId idEqualsItemCode =
        some (.compare .equal (.column itemName) (.column itemCode)) ∧
      nameEqualsId.eval (partRow [.varchar "01", .int 1, .varchar "1"]) = .ok (.boolean true) ∧
      idEqualsItemCode.eval (partRow [.varchar "01", .int 1, .varchar "1"]) = .ok (.boolean true) ∧
      (Expr.compare .equal (.column itemName) (.column itemCode)).eval
        (partRow [.varchar "01", .int 1, .varchar "1"]) = .ok (.boolean false) ∧
      ∃ e, (Expr.optimize (.ofSettings {}) .empty
          (.connect .and nameEqualsId idEqualsItemCode)).1 = .ok e ∧
        e.selects (partRow [.varchar "01", .int 1, .varchar "1"]) = .ok false :=
  ⟨rfl, rfl, rfl, rfl, _, rfl, rfl⟩

end RowPredicate
