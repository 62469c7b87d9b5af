import Mathlib.Data.Int.Order.Basic
import Mathlib.Data.List.Lex
import Mathlib.Order.Compare
import Mathlib.Order.Lattice
import RowPredicate.Collation

/-!
# The order of the values of a type

A collation puts the values of each type in the order of their `place`, a word over the integers.

* `compare_eq_cmp`, `equal_eq_decide`, `holds_eq_accepts`: comparing two values of one type is
  comparing their places;
* `compare?_swap`, `equal_comm`: so a collation is a symmetric compare policy.
-/

namespace RowPredicate

/-- A word over the integers, ordered like the words of a dictionary. -/
def Place : Type := List Int

instance : LinearOrder Place := inferInstanceAs (LinearOrder (List Int))

namespace Place

variable {i j : Int} {x y : List Int}

def ofList (x : List Int) : Place := x

theorem cmp_nil_nil : cmp (ofList []) (ofList []) = .eq :=
  cmp_self_eq_eq _

theorem cmp_nil_cons : cmp (ofList []) (ofList (j :: y)) = .lt :=
  (cmp_eq_lt_iff _ _).2 List.Lex.nil

theorem cmp_cons_nil : cmp (ofList (i :: x)) (ofList []) = .gt :=
  (cmp_eq_gt_iff _ _).2 List.Lex.nil

theorem cmp_cons_self : cmp (ofList (i :: x)) (ofList (i :: y)) = cmp (ofList x) (ofList y) := by
  rcases lt_trichotomy (ofList x) (ofList y) with h | h | h
  · rw [(cmp_eq_lt_iff _ _).2 h]
    exact (cmp_eq_lt_iff _ _).2 (List.Lex.cons h)
  · rw [(cmp_eq_eq_iff _ _).2 h]
    exact (cmp_eq_eq_iff _ _).2 (congrArg (List.cons i) h)
  · rw [(cmp_eq_gt_iff _ _).2 h]
    exact (cmp_eq_gt_iff _ _).2 (List.Lex.cons h)

/-- The first letters decide unless they agree. -/
theorem cmp_cons_cons :
    cmp (ofList (i :: x)) (ofList (j :: y)) = (cmp i j).then (cmp (ofList x) (ofList y)) := by
  rcases lt_trichotomy i j with h | rfl | h
  · rw [(cmp_eq_lt_iff _ _).2 h]
    exact (cmp_eq_lt_iff _ _).2 (List.Lex.rel h)
  · rw [cmp_self_eq_eq, cmp_cons_self]
    rfl
  · rw [(cmp_eq_gt_iff _ _).2 h]
    exact (cmp_eq_gt_iff _ _).2 (List.Lex.rel h)

theorem cmp_singleton (i j : Int) : cmp (ofList [i]) (ofList [j]) = cmp i j := by
  rw [cmp_cons_cons, cmp_nil_nil]
  cases cmp i j <;> rfl

theorem compareLex_eq_cmp {α : Type} [Ord α] {f : α → Int}
    (h : ∀ a b, Ord.compare a b = cmp (f a) (f b)) (as bs : List α) :
    List.compareLex Ord.compare as bs = cmp (ofList (as.map f)) (ofList (bs.map f)) := by
  induction as generalizing bs with
  | nil =>
    cases bs with
    | nil => exact cmp_nil_nil.symm
    | cons b bs => exact cmp_nil_cons.symm
  | cons a as ih =>
    cases bs with
    | nil => exact cmp_cons_nil.symm
    | cons b bs =>
      rw [List.compareLex_cons_cons, h, ih]
      exact cmp_cons_cons.symm

end Place

/-! ## Comparing is comparing places -/

theorem compareOfLessAndEq_eq_cmp {α : Type} [LT α] [DecidableLT α] [DecidableEq α] {f : α → Int}
    (hlt : ∀ a b, a < b ↔ f a < f b) (hinj : ∀ a b, f a = f b → a = b) (a b : α) :
    compareOfLessAndEq a b = cmp (f a) (f b) := by
  rw [compareOfLessAndEq]
  rcases lt_trichotomy (f a) (f b) with h | h | h
  · rw [if_pos ((hlt a b).2 h), (cmp_eq_lt_iff _ _).2 h]
  · have hn : ¬ a < b := fun hab => h.not_lt ((hlt a b).1 hab)
    rw [if_neg hn, if_pos (hinj a b h), (cmp_eq_eq_iff _ _).2 h]
  · have hn : ¬ a < b := fun hab => h.not_gt ((hlt a b).1 hab)
    have hne : a ≠ b := fun hab => h.ne (congrArg f hab.symm)
    rw [if_neg hn, if_neg hne, (cmp_eq_gt_iff _ _).2 h]

theorem compare_char (a b : Char) : Ord.compare a b = cmp (a.toNat : Int) b.toNat := by
  refine compareOfLessAndEq_eq_cmp (f := fun c : Char => (c.toNat : Int)) (fun a b => ?_)
    (fun a b h => ?_) a b
  · rw [Char.lt_def, UInt32.lt_iff_toNat_lt]
    exact Int.ofNat_lt.symm
  · exact Char.toNat_inj.1 (Int.ofNat.inj h)

theorem compare_int32 (a b : Int32) : Ord.compare a b = cmp a.toInt b.toInt :=
  compareOfLessAndEq_eq_cmp (fun _ _ => Int32.lt_iff_toInt_lt) (fun _ _ h => Int32.toInt_inj.1 h) a b

theorem compare_int64 (a b : Int64) : Ord.compare a b = cmp a.toInt b.toInt :=
  compareOfLessAndEq_eq_cmp (fun _ _ => Int64.lt_iff_toInt_lt) (fun _ _ h => Int64.toInt_inj.1 h) a b

theorem compare_int (a b : Int) : Ord.compare a b = cmp a b :=
  compareOfLessAndEq_eq_cmp (f := fun i : Int => i) (fun _ _ => Iff.rfl) (fun _ _ h => h) a b

theorem eq_ok_of_toOption {α : Type} {x : Except Error α} {a : α} (h : x.toOption = some a) :
    x = .ok a := by
  cases x with
  | error e => simp [Except.toOption] at h
  | ok b => exact congrArg Except.ok (Option.some.inj h)

theorem toOption_map {α β : Type} (f : α → β) (x : Except Error α) :
    (x.map f).toOption = x.toOption.map f := by
  cases x <;> rfl

namespace Collation

variable {k : Collation} {op : Comparator} {a b : Value} {t : DataType}

/-- The place of a value among those of its type. -/
def place (k : Collation) : Value → Place
  | .null => .ofList []
  | .boolean b => .ofList [if b then 1 else 0]
  | .int i => .ofList [i.toInt]
  | .bigint i => .ofList [i.toInt]
  | .double d => .ofList [d.key]
  | .varchar s => .ofList ((k.fold s).map fun c => (c.toNat : Int))

theorem compare?_eq_cmp (ha : a.type? = some t) (hb : b.type? = some t) :
    k.compare? a b = some (cmp (k.place a) (k.place b)) := by
  have h : a.type? = b.type? := ha.trans hb.symm
  cases a <;> cases b <;> simp only [Value.type?, reduceCtorEq, Option.some.injEq] at h ha
  · next a b =>
    refine congrArg some (Eq.trans ?_ (Place.cmp_singleton _ _).symm)
    cases a <;> cases b <;> decide
  · next a b => exact congrArg some ((compare_int32 a b).trans (Place.cmp_singleton _ _).symm)
  · next a b => exact congrArg some ((compare_int64 a b).trans (Place.cmp_singleton _ _).symm)
  · next a b => exact congrArg some ((compare_int _ _).trans (Place.cmp_singleton _ _).symm)
  · next a b => exact congrArg some (Place.compareLex_eq_cmp compare_char _ _)

theorem compare_eq_cmp (ha : a.type? = some t) (hb : b.type? = some t) :
    k.compare a b = .ok (cmp (k.place a) (k.place b)) := by
  rw [compare, compare?_eq_cmp ha hb]

theorem equal_eq_decide (ha : a.type? = some t) (hb : b.type? = some t) :
    k.equal a b = .ok (decide (k.place a = k.place b)) := by
  rw [equal_of_ne_null (Value.ne_null_of_type? ha) (Value.ne_null_of_type? hb), compare_eq_cmp ha hb]
  refine congrArg Except.ok ?_
  rw [Bool.eq_iff_iff, beq_iff_eq, decide_eq_true_iff]
  exact cmp_eq_eq_iff (k.place a) (k.place b)

theorem holds_eq_accepts (ha : a.type? = some t) (hb : b.type? = some t) :
    k.policy.holds op a b = .ok (op.accepts (cmp (k.place a) (k.place b))) := by
  rw [holds_of_ne_null (Value.ne_null_of_type? ha) (Value.ne_null_of_type? hb), compare_eq_cmp ha hb]
  rfl

/-! ## Exchanging -/

theorem compare?_swap (k : Collation) (a b : Value) :
    k.compare? b a = (k.compare? a b).map Ordering.swap := by
  cases ha : a.type? with
  | none =>
    have hab : k.compare? a b = none := compare?_eq_none_iff.2 (.inl (Value.type?_eq_none_iff.1 ha))
    have hba : k.compare? b a = none :=
      compare?_eq_none_iff.2 (.inr (.inl (Value.type?_eq_none_iff.1 ha)))
    rw [hab, hba]
    rfl
  | some t =>
    by_cases hb : b.type? = some t
    · rw [compare?_eq_cmp ha hb, compare?_eq_cmp hb ha, Option.map_some, cmp_swap]
    · have hne : a.type? ≠ b.type? := fun h => hb (h.symm.trans ha)
      have hab : k.compare? a b = none := compare?_eq_none_iff.2 (.inr (.inr hne))
      have hba : k.compare? b a = none := compare?_eq_none_iff.2 (.inr (.inr hne.symm))
      rw [hab, hba]
      rfl

theorem equal_comm (k : Collation) (a b : Value) :
    (k.equal b a).toOption = (k.equal a b).toOption := by
  by_cases ha : a = .null
  · subst ha
    cases b <;> rfl
  by_cases hb : b = .null
  · subst hb
    cases a <;> rfl
  rw [equal_of_ne_null ha hb, equal_of_ne_null hb ha, compare, compare, compare?_swap k a b]
  cases k.compare? a b with
  | none => rfl
  | some o => cases o <;> rfl

instance (k : Collation) : k.policy.Symmetric where
  equal_swap a b x h := by
    apply eq_ok_of_toOption
    exact (equal_comm k a b).trans (congrArg Except.toOption h)
  compare_swap a b o h := by
    rw [policy_compare, compare] at h ⊢
    rw [compare?_swap k a b]
    cases hab : k.compare? a b with
    | none => simp [hab] at h
    | some o' =>
      rw [hab] at h
      obtain rfl := Except.ok.inj h
      rfl

end Collation

end RowPredicate
