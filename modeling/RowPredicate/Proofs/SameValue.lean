import RowPredicate.Expr.Same
import RowPredicate.Proofs.Reading

/-!
# The value of expressions that count as one

Sameness of constants takes a zero for a negative zero, and comparison does not. Two expressions that
count as one have one value all the same, unless zeros of different signs are compared in them.

* `zeros`: the zeros that are compared in an expression, with their signs;
* `SharedSlots`: parameters at one place of the statement have one slot;
* `eval_of_same`: under these two conditions, expressions that count as one have one value.
-/

namespace RowPredicate.Expr

/-! ## Signs of zeros -/

/-- A constant zero, of either sign. -/
def isZero : Expr → Bool
  | .const (.double d) => d.isZero
  | _ => false

theorem exists_of_isZero {x : Expr} (h : x.isZero = true) :
    ∃ d, x = .const (.double d) ∧ d.isZero = true := by
  unfold isZero at h
  split at h
  · next d => exact ⟨d, rfl, h⟩
  · simp at h

theorem eq_or_isZero_of_same_const {v w : Value} (h : v.same w = true) :
    v = w ∨ ((const v).isZero = true ∧ (const w).isZero = true) := by
  unfold Value.same at h
  split at h
  · next a b =>
    simp only [Double.ieeeEqual, Bool.and_eq_true, Bool.or_eq_true, beq_iff_eq] at h
    exact h.2.imp_left fun hab => by rw [hab]
  · exact .inl (beq_iff_eq.1 h)

mutual

/-- The zeros that are compared with something, each with its sign, from left to right. Whether the
expression is compared itself is given. -/
def zeros (compared : Bool) : Expr → List Value
  | .const v => if compared && isZero (.const v) then [v] else []
  | .column _ | .param _ => []
  | .compare _ l r => l.zeros true ++ r.zeros true
  | .nullTest _ e => e.zeros false
  | .connect _ l r => l.zeros false ++ r.zeros false
  | .not e => e.zeros false
  | .member s cs => s.zeros true ++ zerosAll cs

/-- The zeros that are compared, in candidates of a membership. -/
def zerosAll : List Expr → List Value
  | [] => []
  | c :: cs => c.zeros true ++ zerosAll cs

end

/-- Parameters at one place of the statement, one of each expression, share their slot. -/
def SharedSlots (e f : Expr) : Prop :=
  ∀ p ∈ e.parameters, ∀ q ∈ f.parameters, p.index = q.index → p.slot = q.slot

theorem SharedSlots.sub {e f x y : Expr} (h : SharedSlots e f) (hx : x.parameters ⊆ e.parameters)
    (hy : y.parameters ⊆ f.parameters) : SharedSlots x y :=
  fun p hp q hq => h p (hx hp) q (hy hq)

theorem length_zerosAll_of_same {es fs : List Expr}
    (ih : ∀ e ∈ es, ∀ f, e.same f = true → (e.zeros true).length = (f.zeros true).length)
    (h : sameAll es fs = true) : (zerosAll es).length = (zerosAll fs).length := by
  induction es generalizing fs with
  | nil =>
    cases fs with
    | nil => rfl
    | cons f fs => simp [sameAll] at h
  | cons e es ihes =>
    cases fs with
    | nil => simp [sameAll] at h
    | cons f fs =>
      simp only [sameAll, Bool.and_eq_true] at h
      have htail := ihes (fun d hd => ih d (List.mem_cons_of_mem e hd)) h.2
      have hhead := ih e List.mem_cons_self f h.1
      rw [zerosAll, zerosAll, List.length_append, List.length_append, hhead, htail]

theorem length_zeros_of_same {compared : Bool} {e f : Expr} (h : e.same f = true) :
    (e.zeros compared).length = (f.zeros compared).length := by
  induction e generalizing f compared with
  | const v =>
    cases f <;> simp only [same, Bool.false_eq_true] at h
    rcases eq_or_isZero_of_same_const h with rfl | ⟨hv, hw⟩
    · rfl
    · simp only [zeros, hv, hw]
      split <;> rfl
  | column c | param p =>
    cases f <;> simp only [same, Bool.false_eq_true] at h
    rfl
  | compare op l r ihl ihr | connect op l r ihl ihr =>
    cases f <;> simp only [same, Bool.false_eq_true, Bool.and_eq_true] at h
    rw [zeros, zeros, List.length_append, List.length_append, ihl h.1.2, ihr h.2]
  | nullTest t e ih =>
    cases f <;> simp only [same, Bool.false_eq_true, Bool.and_eq_true] at h
    exact ih h.2
  | not e ih =>
    cases f <;> simp only [same, Bool.false_eq_true] at h
    exact ih h
  | member s cs ihs ihcs =>
    cases f <;> simp only [same, Bool.false_eq_true, Bool.and_eq_true] at h
    have hcs := length_zerosAll_of_same (fun c hc _ => ihcs c hc) h.2
    rw [zeros, zeros, List.length_append, List.length_append, ihs h.1, hcs]

/-! ## One value -/

theorem eq_of_same_param {p q : Parameter} (h : (param p).same (.param q) = true)
    (hslot : p.index = q.index → p.slot = q.slot) : p = q := by
  have hindex : p.index = q.index := beq_iff_eq.1 h
  have hs := hslot hindex
  cases p
  cases q
  simp only at hindex hs
  rw [hindex, hs]

theorem type?_of_same {store : Store} {e f : Expr} (hslot : SharedSlots e f) (h : e.same f = true) :
    e.type? store = f.type? store := by
  cases e with
  | const v =>
    cases f <;> simp only [same, Bool.false_eq_true] at h
    rcases eq_or_isZero_of_same_const h with rfl | ⟨hv, hw⟩
    · rfl
    · obtain ⟨a, ha, -⟩ := exists_of_isZero hv
      obtain ⟨b, hb, -⟩ := exists_of_isZero hw
      rw [ha, hb]
      rfl
  | column c =>
    cases f <;> simp only [same, Bool.false_eq_true] at h
    rw [beq_iff_eq.1 h]
  | param p =>
    cases f <;> simp only [same, Bool.false_eq_true] at h
    rw [eq_of_same_param h (hslot _ List.mem_cons_self _ List.mem_cons_self)]
  | compare | nullTest | connect | not | member =>
    cases f <;> simp only [same, Bool.false_eq_true] at h
    rfl

section

variable {ctx : Context}

theorem truth_of_isZero {e : Expr} (h : e.isZero = true) : e.truth ctx = .ok .no := by
  obtain ⟨d, rfl, hd⟩ := exists_of_isZero h
  simp [truth, eval, Except.bind, Value.truth, Value.isNull, Value.toBoolean?, hd, Truth.ofBool]

theorem truth_congr {e f : Expr}
    (h : e.eval ctx = f.eval ctx ∨ (e.isZero = true ∧ f.isZero = true)) :
    e.truth ctx = f.truth ctx := by
  rcases h with h | ⟨he, hf⟩
  · rw [truth, truth, h]
  · rw [truth_of_isZero he, truth_of_isZero hf]

theorem evalCandidates_of_sameAll {s s' : Expr} {a : Value} {cs ds : List Expr}
    (hs : s.type? ctx.store = s'.type? ctx.store)
    (hslot : ∀ c ∈ cs, ∀ d ∈ ds, SharedSlots c d)
    (ih : ∀ c ∈ cs, ∀ d ∈ ds, c.same d = true → c.zeros true = d.zeros true → c.eval ctx = d.eval ctx)
    (h : sameAll cs ds = true) (hz : zerosAll cs = zerosAll ds) (sofar : Truth) :
    evalCandidates ctx s a sofar cs = evalCandidates ctx s' a sofar ds := by
  induction cs generalizing ds sofar with
  | nil =>
    cases ds with
    | nil => rfl
    | cons d ds => simp [sameAll] at h
  | cons c cs ihcs =>
    cases ds with
    | nil => simp [sameAll] at h
    | cons d ds =>
      simp only [sameAll, Bool.and_eq_true] at h
      obtain ⟨hzc, hzcs⟩ := List.append_inj hz (length_zeros_of_same h.1)
      have heval := ih c List.mem_cons_self d List.mem_cons_self h.1 hzc
      have htype : c.type? ctx.store = d.type? ctx.store :=
        type?_of_same (hslot c List.mem_cons_self d List.mem_cons_self) h.1
      have hrest := ihcs
        (fun x hx y hy => hslot x (List.mem_cons_of_mem c hx) y (List.mem_cons_of_mem d hy))
        (fun x hx y hy => ih x (List.mem_cons_of_mem c hx) y (List.mem_cons_of_mem d hy)) h.2 hzcs
      simp only [evalCandidates, Context.commonType?, heval, htype, hs, hrest]

/-- Expressions that count as one have one value if the zeros that they compare have the same signs.
They can still be two zeros themselves, if nobody compares them. -/
theorem eval_of_same {compared : Bool} {e f : Expr} (hslot : SharedSlots e f) (h : e.same f = true)
    (hz : e.zeros compared = f.zeros compared) :
    e.eval ctx = f.eval ctx ∨ (compared = false ∧ e.isZero = true ∧ f.isZero = true) := by
  induction e generalizing f compared with
  | const v =>
    cases f <;> simp only [same, Bool.false_eq_true] at h
    rcases eq_or_isZero_of_same_const h with rfl | ⟨hv, hw⟩
    · exact .inl rfl
    · cases compared with
      | false => exact .inr ⟨rfl, hv, hw⟩
      | true =>
        simp only [zeros, hv, hw, Bool.and_self, if_true, List.cons.injEq, and_true] at hz
        rw [hz]
        exact .inl rfl
  | column c =>
    cases f <;> simp only [same, Bool.false_eq_true] at h
    rw [beq_iff_eq.1 h]
    exact .inl rfl
  | param p =>
    cases f <;> simp only [same, Bool.false_eq_true] at h
    rw [eq_of_same_param h (hslot _ List.mem_cons_self _ List.mem_cons_self)]
    exact .inl rfl
  | compare op l r ihl ihr =>
    cases f <;> simp only [same, Bool.false_eq_true, Bool.and_eq_true, beq_iff_eq] at h
    obtain ⟨hzl, hzr⟩ := List.append_inj hz (length_zeros_of_same h.1.2)
    have hsl : SharedSlots l _ := hslot.sub (List.subset_append_left _ _) (List.subset_append_left _ _)
    have hsr : SharedSlots r _ := hslot.sub (List.subset_append_right _ _) (List.subset_append_right _ _)
    have hl := (ihl hsl h.1.2 hzl).resolve_right (by simp)
    have hr := (ihr hsr h.2 hzr).resolve_right (by simp)
    left
    simp only [eval, Context.commonType?, h.1.1, hl, hr, type?_of_same hsl h.1.2,
      type?_of_same hsr h.2]
  | nullTest t e ih =>
    cases f <;> simp only [same, Bool.false_eq_true, Bool.and_eq_true, beq_iff_eq] at h
    next t' f =>
      have hs : SharedSlots e f := hslot
      left
      rcases ih hs h.2 hz with he | ⟨-, he, hf⟩
      · simp only [eval, h.1, he]
      · obtain ⟨a, rfl, -⟩ := exists_of_isZero he
        obtain ⟨b, rfl, -⟩ := exists_of_isZero hf
        rw [h.1]
        rfl
  | connect op l r ihl ihr =>
    cases f <;> simp only [same, Bool.false_eq_true, Bool.and_eq_true, beq_iff_eq] at h
    obtain ⟨hzl, hzr⟩ := List.append_inj hz (length_zeros_of_same h.1.2)
    have hsl : SharedSlots l _ := hslot.sub (List.subset_append_left _ _) (List.subset_append_left _ _)
    have hsr : SharedSlots r _ := hslot.sub (List.subset_append_right _ _) (List.subset_append_right _ _)
    have hl := truth_congr ((ihl hsl h.1.2 hzl).imp_right And.right)
    have hr := truth_congr ((ihr hsr h.2 hzr).imp_right And.right)
    unfold truth at hl hr
    left
    simp only [eval, h.1.1, hl, hr]
  | not e ih =>
    cases f <;> simp only [same, Bool.false_eq_true] at h
    next f =>
      have hs : SharedSlots e f := hslot
      have he := truth_congr ((ih hs h hz).imp_right And.right)
      unfold truth at he
      left
      simp only [eval, he]
  | member s cs ihs ihcs =>
    cases f <;> simp only [same, Bool.false_eq_true, Bool.and_eq_true] at h
    next s' ds =>
      obtain ⟨hzs, hzcs⟩ := List.append_inj hz (length_zeros_of_same h.1)
      have hss : SharedSlots s s' := hslot.sub (List.subset_append_left _ _) (List.subset_append_left _ _)
      have hscs : ∀ c ∈ cs, ∀ d ∈ ds, SharedSlots c d := by
        intro c hc d hd
        apply hslot.sub
        · intro p hp
          exact List.mem_append_right _ (mem_parametersAll.2 ⟨c, hc, hp⟩)
        · intro p hp
          exact List.mem_append_right _ (mem_parametersAll.2 ⟨d, hd, hp⟩)
      have hs := (ihs hss h.1 hzs).resolve_right (by simp)
      have hcs : ∀ c ∈ cs, ∀ d ∈ ds, c.same d = true → c.zeros true = d.zeros true →
          c.eval ctx = d.eval ctx := by
        intro c hc d hd hsame hzero
        exact (ihcs c hc (hscs c hc d hd) hsame hzero).resolve_right (by simp)
      left
      simp only [eval, hs, evalCandidates_of_sameAll (type?_of_same hss h.1) hscs hcs h.2 hzcs]

end

end RowPredicate.Expr
