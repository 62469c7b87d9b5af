import RowPredicate.Expr.Conjuncts
import RowPredicate.Proofs.Meaning
import RowPredicate.Proofs.SameValue
import RowPredicate.Proofs.Sameness

/-!
# Conjuncts and duplicates

* `truth_eq_yes_iff`: a condition is TRUE exactly where all its conjuncts are;
* `truth_and_of_conjuncts`: behind a condition, conjuncts that are as true as its own change nothing,
  not even an error;
* `selects_of_same`: expressions that count as one, with zeros of the same signs, select the same rows,
  and a condition may lose the conjuncts that repeat its own;
* `repeated_zero_lost`: zeros of different signs count as one and are not equal, so that a condition
  which loses a conjunct for the other one selects a row too many.
-/

namespace RowPredicate

variable {ctx : Context} {e f x : Expr} {t : Truth}

theorem truth_of_selects (h : e.selects ctx = .ok true) : e.truth ctx = .ok .yes := by
  unfold Expr.selects at h
  obtain ⟨t, ht, hholds⟩ := exists_of_map_eq_ok h
  rw [ht, Truth.holds_iff.1 hholds]

theorem selects_of_truth (h : e.truth ctx = .ok t) : e.selects ctx = .ok t.holds := by
  rw [Expr.selects, h]
  rfl

theorem selects_eq_true_iff : e.selects ctx = .ok true ↔ e.truth ctx = .ok .yes := by
  constructor
  · exact truth_of_selects
  · intro h
    exact selects_of_truth h

theorem conjuncts_of_ne_and (h : ∀ l r, e ≠ .connect .and l r) : e.conjuncts = [e] := by
  cases e with
  | connect op l r =>
    cases op with
    | and => exact absurd rfl (h l r)
    | or => rfl
  | const | column | param | compare | nullTest | not | member => rfl

/-- A conjunct is not an AND itself. -/
theorem conjuncts_of_conjunct (hx : x ∈ e.conjuncts) : x.conjuncts = [x] := by
  induction e with
  | connect op l r ihl ihr =>
    cases op with
    | and => exact (List.mem_append.1 hx).elim ihl ihr
    | or =>
      obtain rfl := List.mem_singleton.1 hx
      rfl
  | const | column | param | compare | nullTest | not | member =>
    obtain rfl := List.mem_singleton.1 hx
    rfl

/-- Unless its decisive value has settled it, a connective has looked at both sides. -/
theorem exists_of_applyInOrder {c : Connective} {a b : Except Error Truth}
    (h : c.applyInOrder a b = .ok t) (ht : t ≠ c.decisive) :
    ∃ s u, a = .ok s ∧ b = .ok u ∧ c.apply s u = t := by
  cases a with
  | error e => simp at h
  | ok s =>
    by_cases hs : s = c.decisive
    · subst hs
      rw [Connective.applyInOrder_decisive, Except.ok.injEq] at h
      exact absurd h.symm ht
    · cases b with
      | error e => simp [Connective.applyInOrder, hs, Except.map] at h
      | ok u =>
        rw [Connective.applyInOrder_ok, Except.ok.injEq] at h
        exact ⟨s, u, rfl, rfl, h⟩

theorem truth_and_eq_yes_iff :
    (Expr.connect .and e f).truth ctx = .ok .yes ↔
      e.truth ctx = .ok .yes ∧ f.truth ctx = .ok .yes := by
  rw [Expr.truth_connect]
  constructor
  · intro h
    obtain ⟨s, u, hs, hu, hboth⟩ := exists_of_applyInOrder h (by decide)
    have hyes : s = .yes ∧ u = .yes := by
      revert hboth
      cases s <;> cases u <;> decide
    rw [hs, hu, hyes.1, hyes.2]
    exact ⟨rfl, rfl⟩
  · intro ⟨he, hf⟩
    rw [he, hf]
    rfl

/-! ## A condition and its conjuncts -/

/-- Unless it is FALSE, a condition has looked at each of its conjuncts, and holds no more than
each. -/
theorem exists_truth_of_conjunct (h : e.truth ctx = .ok t) (ht : t ≠ .no) (hx : x ∈ e.conjuncts) :
    ∃ s, x.truth ctx = .ok s ∧ Connective.and.apply t s = t := by
  induction e generalizing t with
  | connect op l r ihl ihr =>
    cases op with
    | and =>
      rw [Expr.truth_connect] at h
      obtain ⟨s, u, hs, hu, rfl⟩ := exists_of_applyInOrder h ht
      have hsides : s ≠ .no ∧ u ≠ .no := by
        revert ht
        cases s <;> cases u <;> decide
      rcases List.mem_append.1 hx with hx | hx
      · obtain ⟨v, hv, hsv⟩ := ihl hs hsides.1 hx
        refine ⟨v, hv, ?_⟩
        rw [Connective.apply_comm .and s, Connective.apply_assoc, hsv]
      · obtain ⟨v, hv, huv⟩ := ihr hu hsides.2 hx
        refine ⟨v, hv, ?_⟩
        rw [Connective.apply_assoc, huv]
    | or =>
      rw [List.mem_singleton.1 hx]
      exact ⟨t, h, Connective.apply_self _ _⟩
  | const | column | param | compare | nullTest | not | member =>
    rw [List.mem_singleton.1 hx]
    exact ⟨t, h, Connective.apply_self _ _⟩

theorem truth_of_conjunct (h : e.truth ctx = .ok .yes) (hx : x ∈ e.conjuncts) :
    x.truth ctx = .ok .yes := by
  obtain ⟨s, hs, hyes⟩ := exists_truth_of_conjunct h (by decide) hx
  have hs' : s = .yes := (Connective.apply_neutral_left .and s).symm.trans hyes
  rw [hs, hs']

/-- A condition whose conjuncts all hold as much as `t` holds as much itself. -/
theorem exists_truth_of_conjuncts
    (h : ∀ x ∈ e.conjuncts, ∃ s, x.truth ctx = .ok s ∧ Connective.and.apply t s = t) :
    ∃ s, e.truth ctx = .ok s ∧ Connective.and.apply t s = t := by
  induction e with
  | connect op l r ihl ihr =>
    cases op with
    | and =>
      obtain ⟨s, hs, hts⟩ := ihl fun x hx => h x (List.mem_append_left _ hx)
      obtain ⟨u, hu, htu⟩ := ihr fun x hx => h x (List.mem_append_right _ hx)
      refine ⟨Connective.and.apply s u, ?_, ?_⟩
      · rw [Expr.truth_connect, hs, hu, Connective.applyInOrder_ok]
      · rw [← Connective.apply_assoc, hts, htu]
    | or => exact h _ (List.mem_singleton.2 rfl)
  | const | column | param | compare | nullTest | not | member => exact h _ (List.mem_singleton.2 rfl)

theorem truth_eq_yes_iff : e.truth ctx = .ok .yes ↔ ∀ x ∈ e.conjuncts, x.truth ctx = .ok .yes := by
  constructor
  · intro h x hx
    exact truth_of_conjunct h hx
  · intro h
    obtain ⟨s, hs, hyes⟩ := exists_truth_of_conjuncts (t := .yes) fun x hx => ⟨.yes, h x hx, rfl⟩
    have hs' : s = .yes := (Connective.apply_neutral_left .and s).symm.trans hyes
    rw [hs, hs']

/-- Behind a condition, conjuncts that are as true as some of its own change nothing. If the condition
fails, so does the whole, with the same error. -/
theorem truth_and_of_conjuncts (h : ∀ y ∈ f.conjuncts, ∃ x ∈ e.conjuncts, x.truth ctx = y.truth ctx) :
    (Expr.connect .and e f).truth ctx = e.truth ctx := by
  rw [Expr.truth_connect]
  cases he : e.truth ctx with
  | error x => rfl
  | ok t =>
    by_cases ht : t = .no
    · rw [ht]
      rfl
    · have hf : ∃ s, f.truth ctx = .ok s ∧ Connective.and.apply t s = t := by
        apply exists_truth_of_conjuncts
        intro y hy
        obtain ⟨x, hx, htruth⟩ := h y hy
        rw [← htruth]
        exact exists_truth_of_conjunct he ht hx
      obtain ⟨s, hs, hts⟩ := hf
      rw [hs, Connective.applyInOrder_ok, hts]

/-! ## Conjuncts that count as one -/

theorem Expr.parameters_of_conjunct (hx : x ∈ e.conjuncts) : x.parameters ⊆ e.parameters := by
  intro p hp
  induction e with
  | connect op l r ihl ihr =>
    cases op with
    | and =>
      apply List.mem_append.2
      exact (List.mem_append.1 hx).imp ihl ihr
    | or => exact List.mem_singleton.1 hx ▸ hp
  | const | column | param | compare | nullTest | not | member => exact List.mem_singleton.1 hx ▸ hp

theorem Expr.truth_of_same (hslot : SharedSlots e f) (h : e.same f = true)
    (hz : e.zeros false = f.zeros false) : e.truth ctx = f.truth ctx :=
  truth_congr ((eval_of_same hslot h hz).imp_right And.right)

/-- Expressions that count as one hold on the same rows, and a condition may lose the conjuncts that
repeat its own, provided that zeros which are compared at one place have one sign. -/
theorem selects_of_same (ctx : Context) (hslot : Expr.SharedSlots e f) :
    (e.same f = true → e.zeros false = f.zeros false →
      e.truth ctx = f.truth ctx ∧ e.selects ctx = f.selects ctx) ∧
    (e.covers f = true →
      (∀ x ∈ e.conjuncts, ∀ y ∈ f.conjuncts, x.same y = true → x.zeros false = y.zeros false) →
      (Expr.connect .and e f).truth ctx = e.truth ctx ∧
        (Expr.connect .and e f).selects ctx = e.selects ctx) := by
  constructor
  · intro hsame hzeros
    have htruth : e.truth ctx = f.truth ctx := Expr.truth_of_same hslot hsame hzeros
    rw [Expr.selects, Expr.selects, htruth]
    exact ⟨rfl, rfl⟩
  · intro hcovers hzeros
    have htruth : (Expr.connect .and e f).truth ctx = e.truth ctx := by
      apply truth_and_of_conjuncts
      intro y hy
      obtain ⟨x, hx, hsame⟩ := List.any_eq_true.1 (List.all_eq_true.1 hcovers y hy)
      have hxy := hslot.sub (Expr.parameters_of_conjunct hx) (Expr.parameters_of_conjunct hy)
      exact ⟨x, hx, Expr.truth_of_same hxy hsame (hzeros x hx y hy hsame)⟩
    rw [Expr.selects, Expr.selects, htruth]
    exact ⟨rfl, rfl⟩

def score : Column := ⟨⟨0⟩, "T", "SCORE", 0, .double⟩

/-- `zero OR SCORE >= ?1` -/
def scored (zero : Double) : Expr :=
  .connect .or (.const (.double zero))
    (.compare .greaterOrEqual (.column score) (.param ⟨0, "limit"⟩))

/-- A row with a score, and a limit. -/
def scoring (limit value : Double) : Context where
  policy := Collation.policy ⟨false⟩
  store := Store.empty.setValue ⟨0, "limit"⟩ (.double limit)
  binding := Binding.empty.bind ⟨0⟩ [.double value]

theorem selects_of_same_scored :
    (scored (.ofInt 0)).same (scored .negativeZero) = true ∧
      (scored (.ofInt 0)).selects (scoring (.ofInt 1) (.ofInt 2)) = .ok true ∧
      (scored .negativeZero).selects (scoring (.ofInt 1) (.ofInt 2)) = .ok true ∧
      (Expr.connect .and (scored (.ofInt 0)) (scored .negativeZero)).selects
        (scoring (.ofInt 1) (.ofInt 2)) = .ok true := by
  have hslot : Expr.SharedSlots (scored (.ofInt 0)) (scored .negativeZero) := by
    intro p hp q hq _
    rw [List.mem_singleton.1 hp, List.mem_singleton.1 hq]
  have hsame : (scored (.ofInt 0)).same (scored .negativeZero) = true := by decide +kernel
  have hselects : (scored (.ofInt 0)).selects (scoring (.ofInt 1) (.ofInt 2)) = .ok true := by
    decide +kernel
  have hcovers : (scored (.ofInt 0)).covers (scored .negativeZero) = true := by decide +kernel
  have hzeros : (scored (.ofInt 0)).zeros false = (scored .negativeZero).zeros false := by
    simp [scored, Expr.zeros]
  have h := selects_of_same (scoring (.ofInt 1) (.ofInt 2)) hslot
  have hone := h.1 hsame hzeros
  have hboth := h.2 hcovers fun x hx y hy _ => by
    rw [List.mem_singleton.1 hx, List.mem_singleton.1 hy]
    exact hzeros
  exact ⟨hsame, hselects, hone.2.symm.trans hselects, hboth.2.trans hselects⟩

/-- `SCORE = zero` -/
def scoreless (zero : Double) : Expr :=
  .compare .equal (.column score) (.const (.double zero))

/-- A zero counts as a negative zero, but no value equals both. So one condition covers the other, and
selects a row that the other one does not. -/
theorem repeated_zero_lost :
    (scoreless (.ofInt 0)).same (scoreless .negativeZero) = true ∧
      (scoreless (.ofInt 0)).covers (scoreless .negativeZero) = true ∧
      (scoreless (.ofInt 0)).selects (scoring (.ofInt 1) (.ofInt 0)) = .ok true ∧
      (scoreless .negativeZero).selects (scoring (.ofInt 1) (.ofInt 0)) = .ok false ∧
      (Expr.connect .and (scoreless (.ofInt 0)) (scoreless .negativeZero)).selects
        (scoring (.ofInt 1) (.ofInt 0)) = .ok false := by
  decide +kernel

end RowPredicate
