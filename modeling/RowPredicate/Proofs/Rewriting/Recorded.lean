import RowPredicate.Proofs.Carrying
import RowPredicate.Proofs.Rewriting.Outcome
import RowPredicate.Proofs.Rewriting.Shape

/-!
# Recorded column types

While a condition is simplified, its parameters learn the types of columns. The types decide at which
type each comparison with such a parameter is made from then on.

* `Store.Retyped`: nothing but column types has changed between two stores, and only as allowed;
* `Simplification.Records`: a simplification that ends the same way and records the same types in every
  store, what it may record, and of what kind its result is;
* `records_optimize`, `retyped_optimize`: simplification leaves the values of parameters alone, and the
  types that it records are those of columns of the condition;
* `eval_of_carries`: a condition whose comparisons carry over to the new types has the value that it
  had;
* `selects_of_recorded`: so the store that simplification leaves behind selects the same rows, if
  comparisons carry over;
* `recorded_row_gained`: a row that is selected in addition, as 2.4 is 2 once its parameter is an
  integer.
-/

namespace RowPredicate

namespace Store

variable {W : Parameter → DataType → Prop} {s s' s'' : Store}

/-- Each slot keeps its value, and has its column type or one that is allowed. -/
def Retyped (W : Parameter → DataType → Prop) (s s' : Store) : Prop :=
  ∀ p, (s'.slot p).value = (s.slot p).value ∧
    ((s'.slot p).columnType = (s.slot p).columnType ∨ ∃ t, W p t ∧ (s'.slot p).columnType = some t)

theorem Retyped.refl (s : Store) : Retyped W s s :=
  fun _ => ⟨rfl, .inl rfl⟩

theorem Retyped.trans (h : Retyped W s s') (h' : Retyped W s' s'') : Retyped W s s'' := by
  intro p
  obtain ⟨hvalue, htype⟩ := h p
  obtain ⟨hvalue', htype'⟩ := h' p
  refine ⟨hvalue'.trans hvalue, ?_⟩
  rcases htype' with heq | hnew
  · rw [heq]
    exact htype
  · exact .inr hnew

theorem Retyped.value_eq (h : Retyped W s s') (p : Parameter) : s'.value p = s.value p := by
  rw [value, value, (h p).1]

theorem retyped_setColumnType {p : Parameter} {t : DataType} (h : W p t) :
    Retyped W s (s.setColumnType p t) := by
  intro q
  rw [slot_setColumnType]
  by_cases hq : q = p
  · subst hq
    rw [if_pos rfl]
    exact ⟨rfl, .inr ⟨t, h, rfl⟩⟩
  · rw [if_neg hq]
    exact ⟨rfl, .inl rfl⟩

/-- Records several column types, one after the other. -/
def setColumnTypes (s : Store) (ws : List (Parameter × DataType)) : Store :=
  ws.foldl (fun s w => s.setColumnType w.1 w.2) s

theorem setColumnTypes_append (s : Store) (ws ws' : List (Parameter × DataType)) :
    s.setColumnTypes (ws ++ ws') = (s.setColumnTypes ws).setColumnTypes ws' :=
  List.foldl_append

theorem retyped_setColumnTypes {ws : List (Parameter × DataType)} (h : ∀ w ∈ ws, W w.1 w.2) :
    Retyped W s (s.setColumnTypes ws) := by
  induction ws generalizing s with
  | nil => exact .refl s
  | cons w ws ih =>
    have hw := retyped_setColumnType (s := s) (h w List.mem_cons_self)
    exact hw.trans (ih fun x hx => h x (List.mem_cons_of_mem w hx))

end Store

namespace Simplification

variable {α β : Type} {W : Parameter → DataType → Prop} {P : α → Prop} {Q : β → Prop}

/-- Whatever the store, the simplification ends the same way and records the same column types in the same
order. They are allowed, and a result is of the given kind. -/
def Records (W : Parameter → DataType → Prop) (P : α → Prop) (m : Simplification α) : Prop :=
  ∃ (outcome : Except Error α) (ws : List (Parameter × DataType)),
    (∀ a, outcome = .ok a → P a) ∧ (∀ w ∈ ws, W w.1 w.2) ∧
      ∀ s, m.run s = (outcome, s.setColumnTypes ws)

theorem records_pure {a : α} (h : P a) : Records W P (pure a) := by
  refine ⟨.ok a, [], ?_, by simp, fun _ => rfl⟩
  rintro b ⟨⟩
  exact h

theorem records_read {f : Store → Except Error α} (hf : (read f).Blind)
    (h : ∀ a, f .empty = .ok a → P a) : Records W P (read f) :=
  ⟨f .empty, [], h, by simp, fun s => Prod.ext (hf s .empty) rfl⟩

theorem records_record {p : Parameter} {t : DataType} (h : W p t) :
    Records W (fun _ => True) (record p t) :=
  ⟨.ok (), [(p, t)], fun _ _ => trivial, by simpa using h, fun _ => rfl⟩

/-- What follows is run on a result of the kind that came before. -/
theorem Records.bind {m : Simplification α} {f : α → Simplification β} (hm : Records W P m)
    (hf : ∀ a, P a → Records W Q (f a)) : Records W Q (m >>= f) := by
  obtain ⟨outcome, ws, hresult, hws, hrun⟩ := hm
  cases outcome with
  | error e => exact ⟨.error e, ws, by simp, hws, fun s => run_bind_of_error (hrun s)⟩
  | ok a =>
    obtain ⟨outcome', ws', hresult', hws', hrun'⟩ := hf a (hresult a rfl)
    refine ⟨outcome', ws ++ ws', hresult', List.forall_mem_append.2 ⟨hws, hws'⟩, ?_⟩
    intro s
    rw [run_bind_of_ok (hrun s), hrun', Store.setColumnTypes_append]

theorem records_traverse {f : α → Simplification β} {as : List α} (h : ∀ a ∈ as, Records W Q (f a)) :
    Records W (fun bs => ∀ b ∈ bs, Q b) (traverse f as) := by
  induction as with
  | nil => exact records_pure fun b hb => by simp at hb
  | cons a as ih =>
    have ih := ih fun b hb => h b (List.mem_cons_of_mem a hb)
    apply (h a List.mem_cons_self).bind
    intro b hb
    apply ih.bind
    intro bs hbs
    exact records_pure (List.forall_mem_cons.2 ⟨hb, hbs⟩)

end Simplification

namespace Expr

open Simplification

variable {session : Session} {L : Expr → Prop}

/-- The types of columns among the leaves, for parameters among them. -/
def ColumnTypes (L : Expr → Prop) (p : Parameter) (t : DataType) : Prop :=
  L (.param p) ∧ ∃ c, L (.column c) ∧ c.type = t

/-- What is folded reads no parameter. -/
theorem records_fold (hL : ∀ t, L (.const (.ofTruth t))) {e : Expr} (hc : e.isCondition = true)
    (hclosed : e.columns = [] ∧ e.parameters = []) :
    Records (ColumnTypes L) (Over L) (fold session e) := by
  apply records_read (blind_fold hclosed.1 hclosed.2)
  intro a ha
  obtain ⟨v, hv, rfl⟩ := exists_of_map_eq_ok (f := Expr.const) ha
  obtain ⟨t, rfl⟩ := exists_ofTruth_of_eval hc hv
  exact over_const.2 (hL t)

theorem records_foldIf (hL : ∀ t, L (.const (.ofTruth t))) {e : Expr} {ready : Bool}
    (hc : e.isCondition = true) (hclosed : ready = true → e.columns = [] ∧ e.parameters = [])
    (he : e.Over L) : Records (ColumnTypes L) (Over L) (foldIf session ready e) := by
  unfold foldIf
  split
  · next hready => exact records_fold hL hc (hclosed hready)
  · exact records_pure he

theorem records_recordType {l r : Expr} (hl : l.Over L) (hr : r.Over L) :
    Records (ColumnTypes L) (fun _ => True) (recordType l r) := by
  unfold recordType
  split
  · next c p => exact records_record ⟨over_param.1 hr, c, over_column.1 hl, rfl⟩
  · exact records_pure trivial

theorem records_compareSimplified (hL : ∀ t, L (.const (.ofTruth t))) {op : Comparator} {l r : Expr}
    (hl : l.Over L) (hr : r.Over L) :
    Records (ColumnTypes L) (Over L) (compareSimplified session op l r) := by
  have horient := over_orient op hl hr
  unfold compareSimplified
  generalize orient op l r = placed at horient
  obtain ⟨op, l, r⟩ := placed
  dsimp only at horient ⊢
  apply (records_recordType horient.1 horient.2).bind
  intro _ _
  split
  · exact records_pure (over_const.2 (hL .unknown))
  · exact records_foldIf hL rfl closed_compare_const (over_compare.2 horient)

theorem over_reduced (hL : ∀ t, L (.const (.ofTruth t))) {op : Connective} {t : Truth}
    {other whole : Expr} (ho : other.Over L) (hw : whole.Over L) :
    (reduced op t other whole).Over L := by
  rcases reduced_cases op t other whole with h | h | ⟨u, h⟩
  · rwa [h]
  · rwa [h]
  · rw [h]
    exact over_const.2 (hL u)

theorem records_settle (hL : ∀ t, L (.const (.ofTruth t))) {op : Connective} {l r : Expr}
    (hl : l.Over L) (hr : r.Over L) : Records (ColumnTypes L) (Over L) (settle session op l r) := by
  have hboth : (connect op l r).Over L := over_connect.2 ⟨hl, hr⟩
  have hread : ∀ e, Records (ColumnTypes L) (fun a => constTruth? e = .ok a)
      (.read fun _ => constTruth? e) := fun e =>
    records_read (blind_read fun _ _ => rfl) fun _ => id
  rw [settle_eq]
  apply (hread l).bind
  intro a ha
  apply (hread r).bind
  intro b hb
  rcases constTruth?_eq_ok_iff.1 ha with ⟨-, rfl⟩ | ⟨v, t, rfl, -, rfl⟩
  · cases b with
    | none => exact records_pure hboth
    | some t => exact records_pure (over_reduced hL hl hboth)
  · rcases constTruth?_eq_ok_iff.1 hb with ⟨-, rfl⟩ | ⟨w, t', rfl, -, rfl⟩
    · exact records_pure (over_reduced hL hr hboth)
    · exact records_fold hL rfl ⟨rfl, rfl⟩

theorem over_combine {op : Connective} {l r added : Expr} (hl : l.Over L) (hr : r.Over L)
    (ha : added.Over L) : (combine op l r added).Over L := by
  cases op with
  | and =>
    rcases combine_and_cases l r added with h | h
    · rw [h]
      exact over_connect.2 ⟨hl, hr⟩
    · rw [h]
      exact over_connect.2 ⟨over_connect.2 ⟨hl, hr⟩, ha⟩
  | or => exact ha

theorem records_connectSimplified (hL : ∀ t, L (.const (.ofTruth t)))
    {again : Expr → Simplification Expr}
    (hagain : ∀ e, e.Over L → Records (ColumnTypes L) (Over L) (again e))
    {u : Usage} {op : Connective} {l r : Expr} (hl : l.Over L) (hr : r.Over L) :
    Records (ColumnTypes L) (Over L) (connectSimplified session again u op l r) := by
  unfold connectSimplified
  split
  · next kept hdrop =>
    rcases (dropDuplicate?_eq_some hdrop).2 with ⟨-, rfl⟩ | ⟨-, rfl⟩
    · exact records_pure hl
    · exact records_pure hr
  · split
    · next added hmerge =>
      apply (hagain added ((merges_of_merge? hmerge).over hl hr)).bind
      intro added' hadded'
      exact records_pure (over_combine hl hr hadded')
    · exact records_settle hL hl hr

theorem records_optimizeStep (hL : ∀ t, L (.const (.ofTruth t)))
    {again : Usage → Expr → Simplification Expr}
    (hagain : ∀ u e, e.Over L → Records (ColumnTypes L) (Over L) (again u e)) {u : Usage} {e : Expr}
    (he : e.Over L) : Records (ColumnTypes L) (Over L) (optimizeStep session again u e) := by
  cases e with
  | const | column | param => exact records_pure he
  | compare op l r =>
    rw [over_compare] at he
    apply (hagain _ _ he.1).bind
    intro l' hl'
    apply (hagain _ _ he.2).bind
    intro r' hr'
    exact records_compareSimplified hL hl' hr'
  | nullTest t e =>
    apply (hagain _ _ (over_nullTest.1 he)).bind
    intro e' he'
    exact records_foldIf hL rfl closed_nullTest_const (over_nullTest.2 he')
  | connect op l r =>
    rw [over_connect] at he
    apply (hagain _ _ he.1).bind
    intro l' hl'
    apply (hagain _ _ he.2).bind
    intro r' hr'
    exact records_connectSimplified hL (hagain u) hl' hr'
  | not e =>
    rw [over_not] at he
    simp only [optimizeStep]
    split
    · next n hn => exact hagain _ _ ((over_negate? hn).2 he)
    · apply (hagain _ _ he).bind
      intro e' he'
      exact records_foldIf hL rfl closed_not_const (over_not.2 he')
  | member s cs =>
    rw [over_member] at he
    apply (hagain _ _ he.1).bind
    intro s' hs'
    split
    · exact records_pure (over_const.2 (hL .unknown))
    · apply (records_traverse fun c hc => hagain _ _ (he.2 c hc)).bind
      intro cs' hcs'
      exact records_foldIf hL rfl closed_member_const (over_member.2 ⟨hs', hcs'⟩)

theorem records_optimizeWithin (hL : ∀ t, L (.const (.ofTruth t))) (n : Nat) (u : Usage) {e : Expr}
    (he : e.Over L) : Records (ColumnTypes L) (Over L) (optimizeWithin session n u e) := by
  induction n generalizing u e with
  | zero => exact records_pure he
  | succ n ih => exact records_optimizeStep hL (fun u _ he => ih u he) he

/-- Simplification records the types of columns of the condition for parameters of the condition. -/
theorem records_optimize (session : Session) (e : Expr) :
    Records (fun p t => p ∈ e.parameters ∧ ∃ c ∈ e.columns, c.type = t) (fun _ => True)
      (optimizeFor session .condition e) := by
  have hrecords : Records (ColumnTypes e.Known) (Over e.Known) (optimizeFor session .condition e) :=
    records_optimizeWithin (fun t => .inr ⟨t, rfl⟩) e.nodes .condition (over_known e)
  obtain ⟨outcome, ws, -, hws, hrun⟩ := hrecords
  refine ⟨outcome, ws, fun _ _ => trivial, ?_, hrun⟩
  intro w hw
  obtain ⟨hp, c, hc, hct⟩ := hws w hw
  have hparam : w.1 ∈ e.parameters := param_mem_leaves.1 (hp.resolve_right (by simp))
  have hcolumn : c ∈ e.columns := column_mem_leaves.1 (hc.resolve_right (by simp))
  exact ⟨hparam, c, hcolumn, hct⟩

/-- It changes nothing else in the store, whether it succeeds or not. -/
theorem retyped_optimize (session : Session) (store : Store) (e : Expr) :
    Store.Retyped (fun p t => p ∈ e.parameters ∧ ∃ c ∈ e.columns, c.type = t) store
      (optimize session store e).2 := by
  obtain ⟨outcome, ws, -, hws, hrun⟩ := records_optimize session e
  rw [optimize, hrun]
  exact Store.retyped_setColumnTypes hws

/-! ## The same value at other types -/

section

variable {ctx : Context} {store : Store}

/-- The comparison of two expressions in one context carries over to the type that it has in another
store. -/
def CarriesOver (ctx : Context) (store : Store) (l r : Expr) : Prop :=
  CarriesTo ctx (Context.commonType? { ctx with store := store } l r) l r

theorem compare_of_carries {op : Comparator} {s t : Option DataType} {a a' b b' : Except Error Value}
    {x : Truth} (ha : ∀ v, a = .ok v → a' = .ok v) (hb : ∀ v, b = .ok v → b' = .ok v)
    (hc : ∀ v w, a = .ok v → b = .ok w → Carries ctx.policy s t v w)
    (h : ctx.compare op s a b = .ok x) :
    ctx.compare op t a' b' = .ok x := by
  cases a with
  | error e => simp [Context.compare] at h
  | ok v =>
    rw [ha v rfl]
    cases b with
    | error e =>
      obtain ⟨rfl, hop, rfl⟩ := Context.null_of_compare_error h
      simp [Context.compare, Value.isNull, hop]
    | ok w =>
      rw [hb w rfl]
      rw [Context.compare_ok] at h ⊢
      split at h
      · next hnull => rw [if_pos hnull, h]
      · next hnull =>
        obtain ⟨y, hy, rfl⟩ := exists_of_map_eq_ok h
        have hsafe : op.isNullSafe = true ∨ (v ≠ .null ∧ w ≠ .null) := by
          cases hop : op.isNullSafe with
          | true => exact .inl rfl
          | false => exact .inr (not_or.1 fun hside => hnull ⟨hside, hop⟩)
        rw [if_neg hnull, Context.relate_of_carries (hc v w rfl rfl) hsafe hy]
        rfl

theorem bind_truth_of_ok {a a' : Except Error Value} {x : Truth} (ha : ∀ v, a = .ok v → a' = .ok v)
    (h : a.bind Value.truth = .ok x) : a'.bind Value.truth = .ok x := by
  cases a with
  | error e => simp [Except.bind] at h
  | ok v => rwa [ha v rfl]

/-- The candidates are compared at their new types, up to the first match. -/
theorem evalCandidates_of_carries {s : Expr} {a : Value} {cs : List Expr} {sofar x : Truth}
    (hs : s.eval ctx = .ok a) (ha : a ≠ .null)
    (ih : ∀ c ∈ cs, ∀ v, c.eval ctx = .ok v → c.eval { ctx with store := store } = .ok v)
    (hc : ∀ c ∈ cs, CarriesOver ctx store s c) (h : evalCandidates ctx s a sofar cs = .ok x) :
    evalCandidates { ctx with store := store } s a sofar cs = .ok x := by
  induction cs generalizing sofar with
  | nil => exact h
  | cons c cs ihcs =>
    have ihcs := fun {sofar} => @ihcs sofar (fun d hd => ih d (List.mem_cons_of_mem c hd))
      fun d hd => hc d (List.mem_cons_of_mem c hd)
    simp only [evalCandidates] at h ⊢
    cases hb : c.eval ctx with
    | error e => simp [hb] at h
    | ok b =>
      rw [ih c List.mem_cons_self b hb]
      simp only [hb] at h
      dsimp only
      split at h
      · next hnull =>
        rw [if_pos hnull]
        exact ihcs h
      · next hnull =>
        have hnb : b ≠ .null := fun hb => hnull (Value.isNull_iff.2 hb)
        rw [if_neg hnull]
        cases hr : ctx.relate .equal (ctx.commonType? s c) a b with
        | error e => simp [hr] at h
        | ok y =>
          have hcarried : Context.relate { ctx with store := store } .equal
              (Context.commonType? { ctx with store := store } s c) a b = .ok y :=
            Context.relate_of_carries (hc c List.mem_cons_self a b hs hb) (.inr ⟨ha, hnb⟩) hr
          rw [hcarried]
          cases y with
          | true => simpa only [hr] using h
          | false =>
            simp only [hr] at h
            exact ihcs h

/-- A condition keeps its value in a store with the same values and other types, if its comparisons
carry over. -/
theorem eval_of_carries {e : Expr} {v : Value} (hvalue : ∀ p, store.value p = ctx.store.value p)
    (hf : Formed (fun _ => True) (CarriesOver ctx store) e) (h : e.eval ctx = .ok v) :
    e.eval { ctx with store := store } = .ok v := by
  induction hf generalizing v with
  | const | column => exact h
  | param p => rwa [eval, hvalue]
  | compare _ _ hpair ihl ihr =>
    simp only [eval] at h ⊢
    obtain ⟨x, hx, rfl⟩ := exists_of_map_eq_ok h
    have hx' := compare_of_carries (fun _ => ihl) (fun _ => ihr) hpair hx
    exact congrArg (Except.map Value.ofTruth) hx'
  | nullTest _ ih =>
    simp only [eval] at h ⊢
    obtain ⟨a, ha, rfl⟩ := exists_of_map_eq_ok h
    rw [ih ha]
    rfl
  | connect _ _ _ _ ihl ihr =>
    simp only [eval] at h ⊢
    obtain ⟨x, hx, rfl⟩ := exists_of_map_eq_ok h
    have hx' := Connective.applyInOrder_of_ok (fun _ => bind_truth_of_ok fun _ => ihl)
      (fun _ => bind_truth_of_ok fun _ => ihr) hx
    rw [hx']
    rfl
  | not _ _ ih =>
    simp only [eval] at h ⊢
    obtain ⟨x, hx, rfl⟩ := exists_of_map_eq_ok h
    rw [bind_truth_of_ok (fun _ => ih) hx]
    rfl
  | member _ _ hpair ihs ihcs =>
    simp only [eval] at h ⊢
    split at h
    · simp at h
    · next a ha =>
      rw [ihs ha]
      dsimp only
      split at h
      · next hnull => rw [if_pos hnull, h]
      · next hnull =>
        obtain ⟨x, hx, rfl⟩ := exists_of_map_eq_ok h
        have hne : a ≠ .null := fun h => hnull (Value.isNull_iff.2 h)
        rw [if_neg hnull, evalCandidates_of_carries ha hne (fun c hc _ => ihcs c hc) hpair hx]
        rfl

end

end Expr

/-! ## A value that carries over and one that does not -/

def tariffRate : Column := ⟨⟨0⟩, "T", "RATE", 0, .double⟩

def tariffId : Column := ⟨⟨0⟩, "T", "ID", 1, .int⟩

/-- A tariff of rate 1 and number 2, with a value for the parameter. -/
def tariff (v : Value) : Context where
  policy := Collation.policy ⟨false⟩
  store := Store.empty.setValue ⟨0, "number"⟩ v
  binding := Binding.empty.bind ⟨0⟩ [.double (.ofInt 1), .int 2]

/-- `ID = ?1` -/
def numbered : Expr := .compare .equal (.column tariffId) (.param ⟨0, "number"⟩)

/-- `RATE < ?1 AND ID = ?1` -/
def cheapNumbered : Expr :=
  .connect .and (.compare .less (.column tariffRate) (.param ⟨0, "number"⟩)) numbered

end RowPredicate
