import RowPredicate.Expr.Basic

/-!
# The parts of an expression

* `parts`: an expression and everything below it, one part for each node;
* `Everywhere P`: every part satisfies `P`, with one rule for each constructor.
-/

namespace RowPredicate.Expr

mutual

/-- An expression and everything below it, from the top down. -/
def parts : Expr → List Expr
  | .const v => [.const v]
  | .column c => [.column c]
  | .param p => [.param p]
  | .compare op l r => .compare op l r :: (l.parts ++ r.parts)
  | .nullTest t e => .nullTest t e :: e.parts
  | .connect op l r => .connect op l r :: (l.parts ++ r.parts)
  | .not e => .not e :: e.parts
  | .member s cs => .member s cs :: (s.parts ++ partsAll cs)

/-- The parts of several expressions. -/
def partsAll : List Expr → List Expr
  | [] => []
  | e :: es => e.parts ++ partsAll es

end

theorem mem_partsAll {x : Expr} {es : List Expr} : x ∈ partsAll es ↔ ∃ e ∈ es, x ∈ e.parts := by
  induction es with
  | nil => simp [partsAll]
  | cons e es ih => simp [partsAll, ih]

theorem mem_parts_self (e : Expr) : e ∈ e.parts := by
  cases e <;> exact List.mem_cons_self

/-- A part of a part is a part of the whole. -/
theorem parts_subset_of_mem {x e : Expr} (h : x ∈ e.parts) : x.parts ⊆ e.parts := by
  induction e with
  | const | column | param =>
    rw [List.mem_singleton.1 h]
    exact List.Subset.refl _
  | compare op l r ihl ihr | connect op l r ihl ihr =>
    rcases List.mem_cons.1 h with rfl | h
    · exact List.Subset.refl _
    · refine List.subset_cons_of_subset _ ?_
      rcases List.mem_append.1 h with h | h
      · exact List.subset_append_of_subset_left _ (ihl h)
      · exact List.subset_append_of_subset_right _ (ihr h)
  | nullTest t e ih | not e ih =>
    rcases List.mem_cons.1 h with rfl | h
    · exact List.Subset.refl _
    · exact List.subset_cons_of_subset _ (ih h)
  | member s cs ihs ihcs =>
    rcases List.mem_cons.1 h with rfl | h
    · exact List.Subset.refl _
    · refine List.subset_cons_of_subset _ ?_
      rcases List.mem_append.1 h with h | h
      · exact List.subset_append_of_subset_left _ (ihs h)
      · obtain ⟨c, hc, hx⟩ := mem_partsAll.1 h
        refine List.subset_append_of_subset_right _ fun y hy => ?_
        exact mem_partsAll.2 ⟨c, hc, ihcs c hc hx hy⟩

/-- Every part of the expression satisfies `P`. -/
def Everywhere (P : Expr → Prop) (e : Expr) : Prop :=
  ∀ x ∈ e.parts, P x

section

variable {P Q : Expr → Prop}

theorem Everywhere.part {e x : Expr} (h : e.Everywhere P) (hx : x ∈ e.parts) : x.Everywhere P :=
  fun y hy => h y (parts_subset_of_mem hx hy)

theorem Everywhere.imp {e : Expr} (h : e.Everywhere P) (hPQ : ∀ x, P x → Q x) : e.Everywhere Q :=
  fun x hx => hPQ x (h x hx)

theorem forall_mem_below {e : Expr} {es fs : List Expr} :
    (∀ x ∈ e :: (es ++ fs), P x) ↔ P e ∧ (∀ x ∈ es, P x) ∧ ∀ x ∈ fs, P x := by
  rw [List.forall_mem_cons, List.forall_mem_append]

theorem forall_mem_partsAll {es : List Expr} :
    (∀ x ∈ partsAll es, P x) ↔ ∀ e ∈ es, e.Everywhere P := by
  simp only [mem_partsAll]
  constructor
  · intro h e he x hx
    exact h x ⟨e, he, hx⟩
  · rintro h x ⟨e, he, hx⟩
    exact h e he x hx

@[simp] theorem everywhere_const {v : Value} : (const v).Everywhere P ↔ P (.const v) :=
  List.forall_mem_singleton

@[simp] theorem everywhere_column {c : Column} : (column c).Everywhere P ↔ P (.column c) :=
  List.forall_mem_singleton

@[simp] theorem everywhere_param {p : Parameter} : (param p).Everywhere P ↔ P (.param p) :=
  List.forall_mem_singleton

@[simp] theorem everywhere_compare {op : Comparator} {l r : Expr} :
    (compare op l r).Everywhere P ↔ P (.compare op l r) ∧ l.Everywhere P ∧ r.Everywhere P :=
  forall_mem_below

@[simp] theorem everywhere_nullTest {t : NullTest} {e : Expr} :
    (nullTest t e).Everywhere P ↔ P (.nullTest t e) ∧ e.Everywhere P :=
  List.forall_mem_cons

@[simp] theorem everywhere_connect {op : Connective} {l r : Expr} :
    (connect op l r).Everywhere P ↔ P (.connect op l r) ∧ l.Everywhere P ∧ r.Everywhere P :=
  forall_mem_below

@[simp] theorem everywhere_not {e : Expr} : (not e).Everywhere P ↔ P (.not e) ∧ e.Everywhere P :=
  List.forall_mem_cons

@[simp] theorem everywhere_member {s : Expr} {cs : List Expr} :
    (member s cs).Everywhere P ↔
      P (.member s cs) ∧ s.Everywhere P ∧ ∀ c ∈ cs, c.Everywhere P := by
  rw [← forall_mem_partsAll]
  exact forall_mem_below

end

end RowPredicate.Expr
