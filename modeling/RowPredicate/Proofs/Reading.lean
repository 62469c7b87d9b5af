import RowPredicate.Expr.Columns
import RowPredicate.Expr.Eval

/-!
# What an expression reads

* `leaves`: the constants, columns and parameters of an expression, from left to right;
* `eval_congr`: the value depends on the policy, on the columns that occur, and on the slots of the
  parameters that occur;
* `eval_of_closed`: without columns and parameters, only the policy counts.
-/

namespace RowPredicate

namespace Expr

mutual

/-- The leaves of an expression, from left to right. -/
def leaves : Expr → List Expr
  | .const v => [.const v]
  | .column c => [.column c]
  | .param p => [.param p]
  | .compare _ l r => l.leaves ++ r.leaves
  | .nullTest _ e => e.leaves
  | .connect _ l r => l.leaves ++ r.leaves
  | .not e => e.leaves
  | .member s cs => s.leaves ++ leavesAll cs

/-- The leaves of several expressions. -/
def leavesAll : List Expr → List Expr
  | [] => []
  | e :: es => e.leaves ++ leavesAll es

end

theorem mem_leavesAll {x : Expr} {es : List Expr} : x ∈ leavesAll es ↔ ∃ e ∈ es, x ∈ e.leaves := by
  induction es with
  | nil => simp [leavesAll]
  | cons e es ih => simp [leavesAll, ih]

theorem column_mem_leaves {c : Column} {e : Expr} : .column c ∈ e.leaves ↔ c ∈ e.columns := by
  induction e with
  | const | column | param => simp [leaves, columns]
  | compare op l r ihl ihr => simp [leaves, columns, ihl, ihr]
  | nullTest t e ih => simpa [leaves, columns] using ih
  | connect op l r ihl ihr => simp [leaves, columns, ihl, ihr]
  | not e ih => simpa [leaves, columns] using ih
  | member s cs ihs ihcs =>
    simp only [leaves, columns, List.mem_append, ihs, mem_leavesAll, mem_columnsAll]
    exact or_congr_right (exists_congr fun x => and_congr_right (ihcs x))

theorem param_mem_leaves {p : Parameter} {e : Expr} : .param p ∈ e.leaves ↔ p ∈ e.parameters := by
  induction e with
  | const | column | param => simp [leaves, parameters]
  | compare op l r ihl ihr => simp [leaves, parameters, ihl, ihr]
  | nullTest t e ih => simpa [leaves, parameters] using ih
  | connect op l r ihl ihr => simp [leaves, parameters, ihl, ihr]
  | not e ih => simpa [leaves, parameters] using ih
  | member s cs ihs ihcs =>
    simp only [leaves, parameters, List.mem_append, ihs, mem_leavesAll, mem_parametersAll]
    exact or_congr_right (exists_congr fun x => and_congr_right (ihcs x))

/-- Every leaf is a constant, a column or a parameter. -/
theorem eq_of_mem_leaves {x e : Expr} (h : x ∈ e.leaves) :
    (∃ v, x = .const v) ∨ (∃ c, x = .column c) ∨ ∃ p, x = .param p := by
  induction e with
  | const v => exact .inl ⟨v, by simpa [leaves] using h⟩
  | column c => exact .inr (.inl ⟨c, by simpa [leaves] using h⟩)
  | param p => exact .inr (.inr ⟨p, by simpa [leaves] using h⟩)
  | compare op l r ihl ihr => exact (List.mem_append.1 h).elim ihl ihr
  | nullTest t e ih => exact ih h
  | connect op l r ihl ihr => exact (List.mem_append.1 h).elim ihl ihr
  | not e ih => exact ih h
  | member s cs ihs ihcs =>
    rcases List.mem_append.1 h with h | h
    · exact ihs h
    · obtain ⟨c, hc, hx⟩ := mem_leavesAll.1 h
      exact ihcs c hc hx

/-! ## Two contexts that agree on what occurs -/

theorem type?_congr {s t : Store} {e : Expr} (h : ∀ p ∈ e.parameters, s.slot p = t.slot p) :
    e.type? s = e.type? t := by
  cases e with
  | param p => simp [type?, Store.type?, h p (by simp [parameters])]
  | _ => rfl

theorem evalCandidates_congr {a b : Context} {s : Expr} {v : Value} {cs : List Expr}
    (hk : a.policy = b.policy) (hs : s.type? a.store = s.type? b.store)
    (hcs : ∀ c ∈ cs, c.eval a = c.eval b ∧ c.type? a.store = c.type? b.store) (sofar : Truth) :
    evalCandidates a s v sofar cs = evalCandidates b s v sofar cs := by
  induction cs generalizing sofar with
  | nil => rfl
  | cons c cs ih =>
    obtain ⟨hc, ht⟩ := hcs c List.mem_cons_self
    have ih := ih fun d hd => hcs d (List.mem_cons_of_mem c hd)
    simp only [evalCandidates, Context.relate, Context.commonType?, hc, hs, ht, hk, ih]

/-- The value of an expression depends on the columns and on the slots of the parameters that occur in
it. -/
theorem eval_congr {a b : Context} {e : Expr} (hk : a.policy = b.policy)
    (hc : ∀ c ∈ e.columns, a.binding.read c = b.binding.read c)
    (hp : ∀ p ∈ e.parameters, a.store.slot p = b.store.slot p) : e.eval a = e.eval b := by
  induction e with
  | const v => rfl
  | column c => exact hc c (by simp [columns])
  | param p => simp [eval, Store.value, hp p (by simp [parameters])]
  | compare op l r ihl ihr =>
    simp only [columns, parameters, List.mem_append] at hc hp
    have hl := ihl (fun c h => hc c (.inl h)) fun p h => hp p (.inl h)
    have hr := ihr (fun c h => hc c (.inr h)) fun p h => hp p (.inr h)
    have htl : l.type? a.store = l.type? b.store := type?_congr fun p h => hp p (.inl h)
    have htr : r.type? a.store = r.type? b.store := type?_congr fun p h => hp p (.inr h)
    simp only [eval, Context.compare, Context.relate, Context.commonType?, hl, hr, htl, htr, hk]
  | nullTest t e ih => simp only [eval, ih hc hp]
  | connect op l r ihl ihr =>
    simp only [columns, parameters, List.mem_append] at hc hp
    have hl := ihl (fun c h => hc c (.inl h)) fun p h => hp p (.inl h)
    have hr := ihr (fun c h => hc c (.inr h)) fun p h => hp p (.inr h)
    simp only [eval, hl, hr]
  | not e ih => simp only [eval, ih hc hp]
  | member s cs ihs ihcs =>
    simp only [columns, parameters, List.mem_append, mem_columnsAll, mem_parametersAll] at hc hp
    have hs := ihs (fun c h => hc c (.inl h)) fun p h => hp p (.inl h)
    have hts : s.type? a.store = s.type? b.store := type?_congr fun p h => hp p (.inl h)
    have hcs : ∀ c ∈ cs, c.eval a = c.eval b ∧ c.type? a.store = c.type? b.store := fun c hmem =>
      ⟨ihcs c hmem (fun d h => hc d (.inr ⟨c, hmem, h⟩)) fun p h => hp p (.inr ⟨c, hmem, h⟩),
        type?_congr fun p h => hp p (.inr ⟨c, hmem, h⟩)⟩
    simp only [eval, hs, evalCandidates_congr hk hts hcs]

/-- An expression with a value has a type, unless the value is NULL. -/
theorem type?_ne_none_of_eval {ctx : Context} {e : Expr} {v : Value} (h : e.eval ctx = .ok v)
    (hv : v ≠ .null) : e.type? ctx.store ≠ none := by
  cases e with
  | const w =>
    cases h
    exact fun hnone => hv (Value.type?_eq_none_iff.1 hnone)
  | param p =>
    simp only [eval, Store.value] at h
    split at h
    · next w hw =>
      cases h
      intro hnone
      simp only [type?, Store.type?, hw, Option.bind_some, Option.or_eq_none_iff] at hnone
      exact hv (Value.type?_eq_none_iff.1 hnone.2)
    · simp at h
  | column | compare | nullTest | connect | not | member => simp [type?]

/-- Nothing but the policy counts for an expression without columns and parameters. -/
theorem eval_of_closed {a b : Context} {e : Expr} (hk : a.policy = b.policy)
    (hc : e.columns = []) (hp : e.parameters = []) : e.eval a = e.eval b :=
  eval_congr hk (by simp [hc]) (by simp [hp])

end Expr

end RowPredicate
