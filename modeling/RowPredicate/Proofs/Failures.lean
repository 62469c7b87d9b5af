import RowPredicate.Expr.Columns
import RowPredicate.Proofs.Meaning

/-!
# How evaluation can fail

What can fail is reading a column or a parameter, converting a value, and the policy that compares two
values. Two values are put in order only after they have been converted to one type, so a collation is
never handed values that cannot be compared.

* `convert_error`, `truth_error`: the error of a conversion names the value and the type;
* `Binding.read_error`, `Store.value_error`: the error of a column or of a parameter names it;
* `relate_error`: a comparison fails with a conversion, or because the policy fails on
  two values of one type (`HandedOver`), which no collation does;
* `Expr.Blames` lists what the error of an evaluation can be, and `eval_error` finds it there;
* `Error.isDefect`: what no evaluation under a collation fails with.
-/

namespace RowPredicate

namespace Error

/-- An operator with the wrong operands, or a comparison of values that are not of one type: whoever
builds and evaluates conditions properly never meets one. -/
def isDefect (x : Error) : Bool :=
  x.kind == .internal || x.kind == .incomparable

def isConversion : Error → Bool
  | .conversion .. => true
  | _ => false

theorem isDefect_of_isConversion {x : Error} (h : x.isConversion = true) : x.isDefect = false := by
  cases x <;> first | rfl | simp [isConversion] at h

end Error

variable {ctx : Context} {x : Error}

section

variable {α β : Type}

theorem map_eq_error_iff {f : α → β} {r : Except Error α} : r.map f = .error x ↔ r = .error x := by
  cases r <;> simp [Except.map]

theorem bind_eq_error_iff {f : α → Except Error β} {r : Except Error α} :
    r.bind f = .error x ↔ r = .error x ∨ ∃ a, r = .ok a ∧ f a = .error x := by
  cases r <;> simp [Except.bind]

theorem bind_eq_ok_iff {f : α → Except Error β} {r : Except Error α} {b : β} :
    r.bind f = .ok b ↔ ∃ a, r = .ok a ∧ f a = .ok b := by
  cases r <;> simp [Except.bind]

/-- A step that cannot fail hides no error. -/
theorem bind_ok_eq_error_iff {f : α → β} {r : Except Error α} :
    (r.bind fun a => .ok (f a)) = .error x ↔ r = .error x := by
  cases r <;> simp [Except.bind]

end

namespace Value

theorem convert_error {v : Value} {t : DataType} (h : v.convert t = .error x) : x = .conversion v t := by
  unfold convert at h
  split at h
  · simp at h
  · exact (Except.error.inj h).symm

theorem isConversion_of_convert {v : Value} {t : DataType} (h : v.convert t = .error x) :
    x.isConversion = true := by
  rw [convert_error h]
  rfl

theorem truth_error {v : Value} (h : v.truth = .error x) : x = .conversion v .boolean := by
  unfold truth at h
  split at h
  · simp at h
  · split at h
    · simp at h
    · exact (Except.error.inj h).symm

end Value

/-- A column cannot be read if its source has no row, or a row that is too short. -/
theorem Binding.read_error {b : Binding} {c : Column} (h : b.read c = .error x) :
    (b.row c.source = none ∧ x = .columnNotBound c) ∨
      ∃ values, b.row c.source = some values ∧ x = .columnIndexOutOfBounds c.index values.length := by
  unfold read at h
  split at h
  · next hrow => exact .inl ⟨hrow, (Except.error.inj h).symm⟩
  · next values hrow =>
    split at h
    · simp at h
    · exact .inr ⟨values, hrow, (Except.error.inj h).symm⟩

theorem Store.value_error {s : Store} {p : Parameter} (h : s.value p = .error x) :
    x = .parameterNotSet p.index := by
  unfold value at h
  split at h
  · simp at h
  · exact (Except.error.inj h).symm

/-! ## Comparisons -/

namespace Context

variable {op : Comparator} {known : Option DataType} {a b : Value}

/-- Where no NULL decides a comparison, its operands are values for it. -/
theorem isNullSafe_or_ne_null (h : ¬ ((a = .null ∨ b = .null) ∧ op.isNullSafe = false)) :
    op.isNullSafe = true ∨ (a ≠ .null ∧ b ≠ .null) := by
  cases hop : op.isNullSafe with
  | true => exact .inl rfl
  | false => exact .inr (not_or.1 fun hnull => h ⟨hnull, hop⟩)

/-- What a policy is handed to compare: two values of one type, or NULL beside any value if the operator
takes NULL for one. -/
def HandedOver (op : Comparator) (a b : Value) : Prop :=
  (op.isNullSafe = true ∧ (a.isNull || b.isNull) = true) ∨
    ∃ t, a.type? = some t ∧ b.type? = some t

theorem handedOver_of_convert {t : DataType} {a' b' : Value}
    (hnull : op.isNullSafe = true ∨ (a ≠ .null ∧ b ≠ .null)) (ha : a.convert t = .ok a')
    (hb : b.convert t = .ok b') : HandedOver op a' b' := by
  by_cases hne : a ≠ .null ∧ b ≠ .null
  · exact .inr ⟨t, Value.type?_convert hne.1 ha, Value.type?_convert hne.2 hb⟩
  · refine .inl ⟨hnull.resolve_right hne, ?_⟩
    rw [Value.isNull_of_convert ha, Value.isNull_of_convert hb, Bool.or_eq_true, Value.isNull_iff,
      Value.isNull_iff]
    tauto

/-- A collation compares whatever it is handed. -/
theorem HandedOver.exists_holds {k : Collation} (h : HandedOver op a b) :
    ∃ y, k.policy.holds op a b = .ok y := by
  rcases h with ⟨hop, hnull⟩ | ⟨t, ha, hb⟩
  · exact ⟨_, ComparePolicy.holds_of_null hop hnull⟩
  · exact ⟨_, Collation.holds_eq_accepts ha hb⟩

/-- What a comparison fails with: an operand that cannot be converted, or the policy on what it is
handed. -/
inductive Fails (policy : ComparePolicy) : Error → Prop
  | conversion (v : Value) (t : DataType) : Fails policy (.conversion v t)
  | policy {op : Comparator} {a b : Value} {x : Error} (hab : HandedOver op a b)
      (h : policy.holds op a b = .error x) : Fails policy x

/-- With a collation, that is a conversion. -/
theorem Fails.isConversion {k : Collation} (h : Fails k.policy x) : x.isConversion = true := by
  cases h with
  | conversion => rfl
  | policy hab h =>
    obtain ⟨y, hy⟩ := hab.exists_holds (k := k)
    simp [hy] at h

theorem relate_error (hnull : op.isNullSafe = true ∨ (a ≠ .null ∧ b ≠ .null))
    (h : ctx.relate op known a b = .error x) : Fails ctx.policy x := by
  unfold relate at h
  split at h
  · next t ht =>
    rcases bind_eq_error_iff.1 h with ha | ⟨a', ha, h⟩
    · rw [Value.convert_error ha]
      exact .conversion a t
    · rcases bind_eq_error_iff.1 h with hb | ⟨b', hb, h⟩
      · rw [Value.convert_error hb]
        exact .conversion b t
      · exact .policy (handedOver_of_convert hnull ha hb) h
  · next ht =>
    -- Neither operand has a type, so both are NULL.
    rw [Option.or_eq_none_iff, DataType.higher?_eq_none_iff, Value.type?_eq_none_iff,
      Value.type?_eq_none_iff] at ht
    obtain ⟨-, rfl, rfl⟩ := ht
    exact .policy (.inl ⟨hnull.resolve_right fun h => h.1 rfl, rfl⟩) h

theorem compare_error {a b : Except Error Value} (h : ctx.compare op known a b = .error x) :
    a = .error x ∨ b = .error x ∨ Fails ctx.policy x := by
  cases a with
  | error e => exact .inl (congrArg Except.error (Except.error.inj h))
  | ok a =>
    cases b with
    | error e =>
      simp only [compare] at h
      split at h
      · simp at h
      · exact .inr (.inl (congrArg Except.error (Except.error.inj h)))
    | ok b =>
      rw [compare_ok] at h
      split at h
      · simp at h
      · next hsafe =>
        exact .inr (.inr (relate_error (isNullSafe_or_ne_null hsafe) (map_eq_error_iff.1 h)))

end Context

theorem applyInOrder_error_cases {c : Connective} {a b : Except Error Truth}
    (h : c.applyInOrder a b = .error x) : a = .error x ∨ b = .error x := by
  cases a with
  | error e => exact .inl h
  | ok t =>
    simp only [Connective.applyInOrder] at h
    split at h
    · simp at h
    · exact .inr (map_eq_error_iff.1 h)

/-! ## Expressions -/

namespace Expr

/-- What the error of evaluating an expression can be: what a comparison fails with, or what went wrong
when a column or a parameter of the expression was read. -/
inductive Blames (ctx : Context) (e : Expr) : Error → Prop
  | comparison {x : Error} (h : Context.Fails ctx.policy x) : Blames ctx e x
  | column {c : Column} {x : Error} (hc : c ∈ e.columns) (h : ctx.binding.read c = .error x) :
      Blames ctx e x
  | parameter {p : Parameter} {x : Error} (hp : p ∈ e.parameters) (h : ctx.store.value p = .error x) :
      Blames ctx e x

theorem Blames.mono {e f : Expr} (h : Blames ctx e x) (hc : e.columns ⊆ f.columns)
    (hp : e.parameters ⊆ f.parameters) : Blames ctx f x := by
  cases h with
  | comparison h => exact .comparison h
  | column hmem h => exact .column (hc hmem) h
  | parameter hmem h => exact .parameter (hp hmem) h

theorem truth_blames {e f : Expr} (ih : ∀ x, e.eval ctx = .error x → Blames ctx e x)
    (hc : e.columns ⊆ f.columns) (hp : e.parameters ⊆ f.parameters)
    (h : (e.eval ctx).bind Value.truth = .error x) : Blames ctx f x := by
  rcases bind_eq_error_iff.1 h with h | ⟨v, -, hv⟩
  · exact (ih x h).mono hc hp
  · rw [Value.truth_error hv]
    exact .comparison (.conversion v .boolean)

theorem evalCandidates_blames {s : Expr} {a : Value} {sofar : Truth} {cs : List Expr} {f : Expr}
    (ha : a ≠ .null) (ih : ∀ c ∈ cs, ∀ y, c.eval ctx = .error y → Blames ctx f y)
    (h : evalCandidates ctx s a sofar cs = .error x) : Blames ctx f x := by
  induction cs generalizing sofar with
  | nil => simp [evalCandidates] at h
  | cons c cs ihcs =>
    have ihcs := fun {sofar} => @ihcs sofar fun d hd => ih d (List.mem_cons_of_mem c hd)
    simp only [evalCandidates] at h
    split at h
    · next y hy =>
      obtain rfl := Except.error.inj h
      exact ih c List.mem_cons_self _ hy
    · next b hb =>
      split at h
      · exact ihcs h
      · next hnull =>
        have hb : b ≠ .null := fun h => hnull (Value.isNull_iff.2 h)
        split at h
        · next y hy =>
          obtain rfl := Except.error.inj h
          exact .comparison (Context.relate_error (.inr ⟨ha, hb⟩) hy)
        · simp at h
        · exact ihcs h

/-- Evaluation fails only with a comparison, or because a column or a parameter could not be read. -/
theorem eval_error {e : Expr} (h : e.eval ctx = .error x) : Blames ctx e x := by
  induction e generalizing x with
  | const v => simp [eval] at h
  | column c => exact .column (by simp [columns]) h
  | param p => exact .parameter (by simp [parameters]) h
  | compare op l r ihl ihr =>
    rcases Context.compare_error (map_eq_error_iff.1 h) with hl | hr | hfails
    · exact (ihl hl).mono (List.subset_append_left _ _) (List.subset_append_left _ _)
    · exact (ihr hr).mono (List.subset_append_right _ _) (List.subset_append_right _ _)
    · exact .comparison hfails
  | nullTest t e ih => exact (ih (map_eq_error_iff.1 h)).mono (fun _ => id) fun _ => id
  | connect op l r ihl ihr =>
    rcases applyInOrder_error_cases (map_eq_error_iff.1 h) with hl | hr
    · exact truth_blames (fun _ => ihl) (List.subset_append_left _ _) (List.subset_append_left _ _) hl
    · exact truth_blames (fun _ => ihr) (List.subset_append_right _ _) (List.subset_append_right _ _) hr
  | not e ih => exact truth_blames (fun _ => ih) (fun _ => id) (fun _ => id) (map_eq_error_iff.1 h)
  | member s cs ihs ihcs =>
    simp only [eval] at h
    split at h
    · next y hy =>
      obtain rfl := Except.error.inj h
      exact (ihs hy).mono (List.subset_append_left _ _) (List.subset_append_left _ _)
    · next a ha =>
      split at h
      · simp at h
      · next hnull =>
        have hne : a ≠ .null := fun h => hnull (Value.isNull_iff.2 h)
        refine evalCandidates_blames hne (fun c hc y hy => (ihcs c hc hy).mono ?_ ?_)
          (map_eq_error_iff.1 h)
        · intro d hd
          exact List.mem_append_right _ (mem_columnsAll.2 ⟨c, hc, hd⟩)
        · intro p hp
          exact List.mem_append_right _ (mem_parametersAll.2 ⟨c, hc, hp⟩)

/-- Without columns and parameters, only a comparison can fail. -/
theorem Blames.fails_of_closed {e : Expr} (h : Blames ctx e x) (hc : e.columns = [])
    (hp : e.parameters = []) : Context.Fails ctx.policy x := by
  cases h with
  | comparison h => exact h
  | column hmem => simp [hc] at hmem
  | parameter hmem => simp [hp] at hmem

theorem Blames.not_isDefect {k : Collation} {e : Expr} (hk : ctx.policy = k.policy)
    (h : Blames ctx e x) : x.isDefect = false := by
  cases h with
  | comparison h =>
    rw [hk] at h
    exact Error.isDefect_of_isConversion h.isConversion
  | column _ h =>
    rcases Binding.read_error h with ⟨-, rfl⟩ | ⟨values, -, rfl⟩
    · rfl
    · rfl
  | parameter _ h =>
    rw [Store.value_error h]
    rfl

end Expr

end RowPredicate
