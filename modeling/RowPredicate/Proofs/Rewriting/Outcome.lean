import RowPredicate.Proofs.Reading
import RowPredicate.Proofs.Rewriting.Rules

/-!
# Outcomes of simplification

* `Simplification.Blind`: a simplification whose outcome does not depend on the store it starts from;
* `blind_optimizeWithin`: all of them are, since only constants are ever folded;
* `outcome_optimizeWithin_iff`: with as many steps as there are nodes, simplification succeeds exactly
  along the rules of `Rewrites`;
* `optimizeFor_eq_ok_iff`, `optimize_eq_ok_iff`: so does the simplification of an operand, and that of a
  filter condition.
-/

namespace RowPredicate

namespace Simplification

variable {α β : Type}

/-- The outcome is the same in every store. -/
def Blind (m : Simplification α) : Prop :=
  ∀ s t, (m.run s).1 = (m.run t).1

/-- The outcome in the empty store. -/
def outcome (m : Simplification α) : Except Error α :=
  (m.run .empty).1

theorem Blind.run_fst {m : Simplification α} (h : m.Blind) (s : Store) : (m.run s).1 = m.outcome :=
  h s .empty

theorem blind_pure (a : α) : (pure a : Simplification α).Blind := fun _ _ => rfl

theorem blind_record (p : Parameter) (t : DataType) : (record p t).Blind := fun _ _ => rfl

theorem blind_read {f : Store → Except Error α} (h : ∀ s t, f s = f t) : (read f).Blind := h

@[simp] theorem outcome_pure (a : α) : (pure a : Simplification α).outcome = .ok a := rfl

@[simp] theorem outcome_read (f : Store → Except Error α) : (read f).outcome = f .empty := rfl

/-- What follows a blind simplification need only be blind for the results that it can have. -/
theorem run_bind_fst {m : Simplification α} {f : α → Simplification β} (hm : m.Blind)
    (hf : ∀ a, m.outcome = .ok a → (f a).Blind) (s : Store) :
    ((m >>= f).run s).1 = m.outcome.bind fun a => (f a).outcome := by
  have hfst := hm.run_fst s
  rw [run_bind]
  split
  · next a s' hrun =>
    rw [hrun] at hfst
    rw [← hfst]
    exact (hf a hfst.symm).run_fst s'
  · next e s' hrun =>
    rw [hrun] at hfst
    rw [← hfst]
    rfl

theorem Blind.bind {m : Simplification α} {f : α → Simplification β} (hm : m.Blind)
    (hf : ∀ a, m.outcome = .ok a → (f a).Blind) : (m >>= f).Blind := by
  intro s t
  rw [run_bind_fst hm hf, run_bind_fst hm hf]

/-- A sequence of steps succeeds when each of them does. -/
theorem outcome_bind_eq_ok_iff {m : Simplification α} {f : α → Simplification β} (hm : m.Blind)
    (hf : ∀ a, m.outcome = .ok a → (f a).Blind) {b : β} :
    (m >>= f).outcome = .ok b ↔ ∃ a, m.outcome = .ok a ∧ (f a).outcome = .ok b := by
  have h : (m >>= f).outcome = m.outcome.bind fun a => (f a).outcome := run_bind_fst hm hf .empty
  rw [h]
  cases m.outcome <;> simp [Except.bind]

theorem blind_traverse {f : α → Simplification β} (hf : ∀ a, (f a).Blind) (as : List α) :
    (traverse f as).Blind := by
  induction as with
  | nil => exact blind_pure _
  | cons a as ih => exact (hf a).bind fun _ _ => ih.bind fun _ _ => blind_pure _

theorem outcome_traverse_iff {f : α → Simplification β} (hf : ∀ a, (f a).Blind) {as : List α}
    {bs : List β} :
    (traverse f as).outcome = .ok bs ↔
      as.length = bs.length ∧ ∀ p ∈ as.zip bs, (f p.1).outcome = .ok p.2 := by
  induction as generalizing bs with
  | nil =>
    cases bs with
    | nil => simp [traverse]
    | cons b bs => simp [traverse]
  | cons a as ih =>
    have has := blind_traverse hf as
    have hrest : ∀ b, (traverse f as >>= fun bs => pure (b :: bs)).Blind := fun b =>
      has.bind fun _ _ => blind_pure _
    simp only [traverse, outcome_bind_eq_ok_iff (hf a) fun b _ => hrest b,
      outcome_bind_eq_ok_iff has fun _ _ => blind_pure _, outcome_pure, Except.ok.injEq]
    constructor
    · rintro ⟨b, hb, bs', hbs, rfl⟩
      obtain ⟨hlen, hall⟩ := ih.1 hbs
      refine ⟨by simp [hlen], ?_⟩
      intro p hp
      rcases List.mem_cons.1 hp with rfl | hp
      · exact hb
      · exact hall p hp
    · rintro ⟨hlen, hall⟩
      cases bs with
      | nil => simp at hlen
      | cons b bs =>
        refine ⟨b, hall (a, b) (by simp), bs, ih.2 ⟨by simpa using hlen, ?_⟩, rfl⟩
        intro p hp
        exact hall p (by simp [hp])

end Simplification

namespace Expr

open Simplification

variable {session : Session}

theorem closed_compare_const {op : Comparator} {l r : Expr} (h : (l.isConst && r.isConst) = true) :
    (compare op l r).columns = [] ∧ (compare op l r).parameters = [] := by
  rw [Bool.and_eq_true] at h
  obtain ⟨v, rfl⟩ := isConst_iff.1 h.1
  obtain ⟨w, rfl⟩ := isConst_iff.1 h.2
  exact ⟨rfl, rfl⟩

theorem closed_of_isConst {e : Expr} (h : e.isConst = true) : e.columns = [] ∧ e.parameters = [] := by
  obtain ⟨v, rfl⟩ := isConst_iff.1 h
  exact ⟨rfl, rfl⟩

theorem closed_nullTest_const {t : NullTest} {e : Expr} (h : e.isConst = true) :
    (nullTest t e).columns = [] ∧ (nullTest t e).parameters = [] := by
  simpa [columns, parameters] using closed_of_isConst h

theorem closed_not_const {e : Expr} (h : e.isConst = true) :
    (not e).columns = [] ∧ (not e).parameters = [] := by
  simpa [columns, parameters] using closed_of_isConst h

theorem closed_member_const {s : Expr} {cs : List Expr} (h : (s.isConst && cs.all isConst) = true) :
    (member s cs).columns = [] ∧ (member s cs).parameters = [] := by
  simp only [Bool.and_eq_true, List.all_eq_true] at h
  obtain ⟨hs, hcs⟩ := h
  constructor
  · rw [columns, (closed_of_isConst hs).1, List.nil_append, List.eq_nil_iff_forall_not_mem]
    intro c hc
    obtain ⟨e, he, hce⟩ := mem_columnsAll.1 hc
    simp [(closed_of_isConst (hcs e he)).1] at hce
  · rw [parameters, (closed_of_isConst hs).2, List.nil_append, List.eq_nil_iff_forall_not_mem]
    intro p hp
    obtain ⟨e, he, hpe⟩ := mem_parametersAll.1 hp
    simp [(closed_of_isConst (hcs e he)).2] at hpe

/-! ## The parts of a step -/

theorem blind_fold {e : Expr} (hc : e.columns = []) (hp : e.parameters = []) :
    (fold session e).Blind := by
  apply blind_read
  intro s t
  rw [eval_of_closed (a := ⟨session.policy, s, .empty⟩) (b := ⟨session.policy, t, .empty⟩) rfl
    hc hp]

theorem outcome_fold_eq_ok_iff {e e' : Expr} :
    (fold session e).outcome = .ok e' ↔ ∃ v, e.eval session.bare = .ok v ∧ e' = .const v := by
  simp only [fold, outcome_read, Session.bare]
  cases e.eval ⟨session.policy, .empty, .empty⟩ with
  | error x => simp [bind, Except.bind]
  | ok v => simp [bind, Except.bind, pure, Except.pure, eq_comm]

theorem blind_foldIf {e : Expr} {ready : Bool}
    (h : ready = true → e.columns = [] ∧ e.parameters = []) : (foldIf session ready e).Blind := by
  unfold foldIf
  split
  · next hr => exact blind_fold (h hr).1 (h hr).2
  · exact blind_pure _

theorem outcome_foldIf_eq_ok_iff {e e' : Expr} {ready : Bool} :
    (foldIf session ready e).outcome = .ok e' ↔ Folded session e ready e' := by
  unfold foldIf
  cases ready with
  | true =>
    rw [if_pos rfl, outcome_fold_eq_ok_iff]
    constructor
    · rintro ⟨v, hv, rfl⟩
      exact .folded hv
    · rintro ⟨⟩
      exact ⟨_, ‹_›, rfl⟩
  | false =>
    rw [if_neg (by decide), outcome_pure, Except.ok.injEq]
    constructor
    · rintro rfl
      exact .kept
    · rintro ⟨⟩
      rfl

theorem blind_recordType (l r : Expr) : (recordType l r).Blind := by
  unfold recordType
  split
  · exact blind_record _ _
  · exact blind_pure _

theorem outcome_recordType (l r : Expr) : (recordType l r).outcome = .ok () := by
  unfold recordType
  split <;> rfl

/-- The rest of a comparison, once its operands are in place. -/
theorem blind_place (op : Comparator) (l r : Expr) :
    (if ((l.isNull || r.isNull) && !op.isNullSafe) = true then pure .null
      else foldIf session (l.isConst && r.isConst) (.compare op l r)).Blind := by
  split
  · exact blind_pure _
  · exact blind_foldIf closed_compare_const

theorem blind_compareSimplified (op : Comparator) (l r : Expr) :
    (compareSimplified session op l r).Blind :=
  (blind_recordType _ _).bind fun _ _ => blind_place _ _ _

theorem outcome_compareSimplified_eq_ok_iff {op : Comparator} {l r e' : Expr} :
    (compareSimplified session op l r).outcome = .ok e' ↔
      Compared session (orient op l r).1 (orient op l r).2.1 (orient op l r).2.2 e' := by
  unfold compareSimplified
  obtain ⟨op, l, r⟩ := orient op l r
  dsimp only
  rw [outcome_bind_eq_ok_iff (blind_recordType l r) fun _ _ => blind_place op l r]
  simp only [outcome_recordType, true_and, exists_const]
  split
  · next h =>
    simp only [Bool.and_eq_true, Bool.or_eq_true, Bool.not_eq_true'] at h
    simp only [outcome_pure, Except.ok.injEq]
    constructor
    · rintro rfl
      exact .unknown h.1 h.2
    · rintro (⟨_, _⟩ | ⟨hnull, _⟩)
      · rfl
      · exfalso
        rcases hnull with hop | ⟨hl, hr⟩
        · simp [hop] at h
        · simp [hl, hr] at h
  · next h =>
    simp only [Bool.and_eq_true, Bool.or_eq_true, Bool.not_eq_true'] at h
    rw [outcome_foldIf_eq_ok_iff]
    constructor
    · intro hf
      refine .compared ?_ hf
      cases hop : op.isNullSafe with
      | true => exact .inl rfl
      | false =>
        refine .inr ⟨?_, ?_⟩
        · cases hl : l.isNull with
          | true => exact absurd ⟨.inl hl, hop⟩ h
          | false => rfl
        · cases hr : r.isNull with
          | true => exact absurd ⟨.inr hr, hop⟩ h
          | false => rfl
    · rintro (⟨hnull, hop⟩ | ⟨_, hf⟩)
      · exact absurd ⟨hnull, hop⟩ h
      · exact hf

theorem constTruth?_eq_ok_iff {e : Expr} {a : Option Truth} :
    constTruth? e = .ok a ↔
      (e.isConst = false ∧ a = none) ∨ ∃ v t, e = .const v ∧ v.truth = .ok t ∧ a = some t := by
  cases e with
  | const v =>
    cases h : v.truth <;>
      simp [constTruth?, h, isConst, bind, Except.bind, pure, Except.pure, eq_comm]
  | _ => simp [constTruth?, isConst, pure, Except.pure, eq_comm]

theorem eval_connect_const {ctx : Context} {op : Connective} {a b : Value} {s t : Truth}
    (ha : a.truth = .ok s) (hb : b.truth = .ok t) :
    (connect op (.const a) (.const b)).eval ctx = .ok (.ofTruth (op.apply s t)) := by
  simp [eval, Except.bind, ha, hb, Except.map]

/-- The rest of a connective, once it is known which sides are constants. -/
def settleWith (session : Session) (op : Connective) (l r : Expr) (a b : Option Truth) :
    Simplification Expr :=
  match a, b with
  | some _, some _ => fold session (.connect op l r)
  | some a, none => return reduced op a r (.connect op l r)
  | none, some b => return reduced op b l (.connect op l r)
  | none, none => return .connect op l r

theorem settle_eq (op : Connective) (l r : Expr) :
    settle session op l r = (do
      let a ← .read fun _ => constTruth? l
      let b ← .read fun _ => constTruth? r
      settleWith session op l r a b) := by
  unfold settle settleWith reduced
  rfl

theorem blind_settleWith {op : Connective} {l r : Expr} {a b : Option Truth}
    (ha : constTruth? l = .ok a) (hb : constTruth? r = .ok b) :
    (settleWith session op l r a b).Blind := by
  rcases constTruth?_eq_ok_iff.1 ha with ⟨-, rfl⟩ | ⟨v, t, rfl, -, rfl⟩
  · cases b <;> exact blind_pure _
  · rcases constTruth?_eq_ok_iff.1 hb with ⟨-, rfl⟩ | ⟨w, t', rfl, -, rfl⟩
    · exact blind_pure _
    · exact blind_fold rfl rfl

theorem blind_settleRight {op : Connective} {l r : Expr} {a : Option Truth}
    (ha : constTruth? l = .ok a) :
    (Simplification.read (fun _ => constTruth? r) >>= settleWith session op l r a).Blind :=
  (blind_read fun _ _ => rfl).bind fun _ hb => blind_settleWith ha hb

theorem blind_settle (op : Connective) (l r : Expr) : (settle session op l r).Blind := by
  rw [settle_eq]
  exact (blind_read fun _ _ => rfl).bind fun _ ha => blind_settleRight ha

theorem outcome_settle_eq_ok_iff {op : Connective} {l r e' : Expr} :
    (settle session op l r).outcome = .ok e' ↔ Settled op l r e' := by
  have hread : ∀ e, (Simplification.read fun _ => constTruth? e).Blind := fun e =>
    blind_read fun _ _ => rfl
  have hsteps : (settle session op l r).outcome = .ok e' ↔
      ∃ a, constTruth? l = .ok a ∧ ∃ b, constTruth? r = .ok b ∧
        (settleWith session op l r a b).outcome = .ok e' := by
    rw [settle_eq, outcome_bind_eq_ok_iff (hread l) fun _ ha => blind_settleRight ha]
    refine exists_congr fun a => and_congr_right fun ha => ?_
    exact outcome_bind_eq_ok_iff (hread r) fun _ hb => blind_settleWith ha hb
  rw [hsteps]
  constructor
  · rintro ⟨a, ha, b, hb, h⟩
    rcases constTruth?_eq_ok_iff.1 ha with ⟨hl, rfl⟩ | ⟨v, t, rfl, hv, rfl⟩ <;>
      rcases constTruth?_eq_ok_iff.1 hb with ⟨hr, rfl⟩ | ⟨w, t', rfl, hw, rfl⟩
    · obtain rfl := Except.ok.inj h
      exact .kept hl hr
    · obtain rfl := Except.ok.inj h
      exact .right hw hl
    · obtain rfl := Except.ok.inj h
      exact .left hv hr
    · obtain ⟨x, hx, rfl⟩ := outcome_fold_eq_ok_iff.1 h
      rw [eval_connect_const hv hw] at hx
      obtain rfl := Except.ok.inj hx
      exact .folded hv hw
  · intro h
    cases h with
    | folded ha hb =>
      exact ⟨_, constTruth?_eq_ok_iff.2 (.inr ⟨_, _, rfl, ha, rfl⟩), _,
        constTruth?_eq_ok_iff.2 (.inr ⟨_, _, rfl, hb, rfl⟩),
        outcome_fold_eq_ok_iff.2 ⟨_, eval_connect_const ha hb, rfl⟩⟩
    | left ht hr =>
      exact ⟨_, constTruth?_eq_ok_iff.2 (.inr ⟨_, _, rfl, ht, rfl⟩), none,
        constTruth?_eq_ok_iff.2 (.inl ⟨hr, rfl⟩), rfl⟩
    | right ht hl =>
      exact ⟨none, constTruth?_eq_ok_iff.2 (.inl ⟨hl, rfl⟩), _,
        constTruth?_eq_ok_iff.2 (.inr ⟨_, _, rfl, ht, rfl⟩), rfl⟩
    | kept hl hr =>
      exact ⟨none, constTruth?_eq_ok_iff.2 (.inl ⟨hl, rfl⟩), none,
        constTruth?_eq_ok_iff.2 (.inl ⟨hr, rfl⟩), rfl⟩

/-! ## Whole simplifications -/

theorem blind_connectSimplified {again : Expr → Simplification Expr} (h : ∀ e, (again e).Blind)
    (u : Usage) (op : Connective) (l r : Expr) :
    (connectSimplified session again u op l r).Blind := by
  unfold connectSimplified
  split
  · exact blind_pure _
  · split
    · exact (h _).bind fun _ _ => blind_pure _
    · exact blind_settle op l r

theorem blind_connectStep {again : Usage → Expr → Simplification Expr}
    (h : ∀ u e, (again u e).Blind) (u : Usage) (op : Connective) (l' r : Expr) :
    (again u r >>= connectSimplified session (again u) u op l').Blind :=
  (h u r).bind fun _ _ => blind_connectSimplified (h u) u op _ _

theorem blind_memberStep {again : Usage → Expr → Simplification Expr}
    (h : ∀ u e, (again u e).Blind) (s : Expr) (cs : List Expr) :
    (if s.isNull = true then (pure .null : Simplification Expr)
      else do
        let cs ← Simplification.traverse (again .value) cs
        foldIf session (s.isConst && cs.all isConst) (.member s cs)).Blind := by
  split
  · exact blind_pure _
  · exact (blind_traverse (h .value) cs).bind fun _ _ => blind_foldIf closed_member_const

theorem blind_optimizeStep {again : Usage → Expr → Simplification Expr}
    (h : ∀ u e, (again u e).Blind) (u : Usage) (e : Expr) : (optimizeStep session again u e).Blind := by
  cases e with
  | const | column | param => exact blind_pure _
  | compare op l r =>
    exact (h _ _).bind fun _ _ => (h _ _).bind fun _ _ => blind_compareSimplified op _ _
  | nullTest t e => exact (h _ _).bind fun _ _ => blind_foldIf closed_nullTest_const
  | connect op l r => exact (h _ _).bind fun _ _ => blind_connectStep h u op _ r
  | not e =>
    simp only [optimizeStep]
    split
    · exact h _ _
    · exact (h _ _).bind fun _ _ => blind_foldIf closed_not_const
  | member s cs => exact (h _ _).bind fun _ _ => blind_memberStep h _ cs

/-- Only constants are folded, so what becomes of an expression does not depend on the parameters. -/
theorem blind_optimizeWithin (session : Session) (n : Nat) (u : Usage) (e : Expr) :
    (optimizeWithin session n u e).Blind := by
  induction n generalizing u e with
  | zero => exact blind_pure _
  | succ n ih => exact blind_optimizeStep ih u e

theorem outcome_connectSimplified_eq_ok_iff {again : Expr → Simplification Expr}
    (h : ∀ e, (again e).Blind) {u : Usage} {op : Connective} {l r e' : Expr} :
    (connectSimplified session again u op l r).outcome = .ok e' ↔
      dropDuplicate? op l r = some e' ∨
        (dropDuplicate? op l r = none ∧
          ((∃ added added', merge? session.settings u op l r = some added ∧
              (again added).outcome = .ok added' ∧ e' = combine op l r added') ∨
            (merge? session.settings u op l r = none ∧ Settled op l r e'))) := by
  unfold connectSimplified
  split
  · next kept hdrop => simp [hdrop, eq_comm]
  · next hdrop =>
    split
    · next added hmerge =>
      rw [outcome_bind_eq_ok_iff (h added) fun _ _ => blind_pure _]
      simp [hdrop, hmerge, eq_comm]
    · next hmerge => simp [hdrop, hmerge, outcome_settle_eq_ok_iff]

section

variable {n : Nat} {u : Usage} {e' : Expr}

theorem outcome_compare_eq_ok_iff {op : Comparator} {l r : Expr} :
    (optimizeWithin session (n + 1) u (.compare op l r)).outcome = .ok e' ↔
      ∃ l' r', (optimizeWithin session n .value l).outcome = .ok l' ∧
        (optimizeWithin session n .value r).outcome = .ok r' ∧
        Compared session (orient op l' r').1 (orient op l' r').2.1 (orient op l' r').2.2 e' := by
  have hb := blind_optimizeWithin session n .value
  have hl : (optimizeWithin session (n + 1) u (.compare op l r)).outcome = .ok e' ↔
      ∃ l', (optimizeWithin session n .value l).outcome = .ok l' ∧
        (optimizeWithin session n .value r >>= compareSimplified session op l').outcome = .ok e' :=
    outcome_bind_eq_ok_iff (hb l) fun _ _ => (hb r).bind fun _ _ => blind_compareSimplified op _ _
  rw [hl]
  apply exists_congr
  intro l'
  rw [outcome_bind_eq_ok_iff (hb r) fun _ _ => blind_compareSimplified op _ _]
  simp only [outcome_compareSimplified_eq_ok_iff, exists_and_left]

theorem outcome_nullTest_eq_ok_iff {t : NullTest} {e : Expr} :
    (optimizeWithin session (n + 1) u (.nullTest t e)).outcome = .ok e' ↔
      ∃ o, (optimizeWithin session n .value e).outcome = .ok o ∧
        Folded session (.nullTest t o) o.isConst e' := by
  have hb := blind_optimizeWithin session n .value e
  refine (outcome_bind_eq_ok_iff hb fun _ _ => blind_foldIf closed_nullTest_const).trans ?_
  simp only [outcome_foldIf_eq_ok_iff]

theorem outcome_connect_eq_ok_iff {op : Connective} {l r : Expr} :
    (optimizeWithin session (n + 1) u (.connect op l r)).outcome = .ok e' ↔
      ∃ l' r', (optimizeWithin session n u l).outcome = .ok l' ∧
        (optimizeWithin session n u r).outcome = .ok r' ∧
        (connectSimplified session (optimizeWithin session n u) u op l' r').outcome = .ok e' := by
  have hb := blind_optimizeWithin session n
  have hl : (optimizeWithin session (n + 1) u (.connect op l r)).outcome = .ok e' ↔
      ∃ l', (optimizeWithin session n u l).outcome = .ok l' ∧
        (optimizeWithin session n u r >>=
          connectSimplified session (optimizeWithin session n u) u op l').outcome = .ok e' :=
    outcome_bind_eq_ok_iff (hb u l) fun _ _ => blind_connectStep hb u op _ r
  rw [hl]
  apply exists_congr
  intro l'
  rw [outcome_bind_eq_ok_iff (hb u r) fun _ _ => blind_connectSimplified (hb u) u op _ _]
  simp only [exists_and_left]

theorem optimizeWithin_not_of_negate? {e m : Expr} (h : e.negate? = some m) :
    optimizeWithin session (n + 1) u (.not e) = optimizeWithin session n u m := by
  simp only [optimizeWithin, optimizeStep, h]

theorem outcome_not_eq_ok_iff {e : Expr} (h : e.negate? = none) :
    (optimizeWithin session (n + 1) u (.not e)).outcome = .ok e' ↔
      ∃ o, (optimizeWithin session n .value e).outcome = .ok o ∧
        Folded session (.not o) o.isConst e' := by
  have hb := blind_optimizeWithin session n .value e
  simp only [optimizeWithin, optimizeStep, h]
  refine (outcome_bind_eq_ok_iff hb fun _ _ => blind_foldIf closed_not_const).trans ?_
  simp only [outcome_foldIf_eq_ok_iff]

theorem outcome_member_eq_ok_iff {s : Expr} {cs : List Expr} :
    (optimizeWithin session (n + 1) u (.member s cs)).outcome = .ok e' ↔
      ∃ s', (optimizeWithin session n .value s).outcome = .ok s' ∧
        ((s'.isNull = true ∧ e' = .null) ∨
          (s'.isNull = false ∧ ∃ cs', cs.length = cs'.length ∧
            (∀ p ∈ cs.zip cs', (optimizeWithin session n .value p.1).outcome = .ok p.2) ∧
            Folded session (.member s' cs') (s'.isConst && cs'.all isConst) e')) := by
  have hb := blind_optimizeWithin session n
  refine (outcome_bind_eq_ok_iff (hb .value s) fun _ _ => blind_memberStep hb _ cs).trans ?_
  refine exists_congr fun s' => and_congr_right fun _ => ?_
  cases hnull : s'.isNull with
  | true => simp [eq_comm]
  | false =>
    rw [if_neg Bool.false_ne_true, outcome_bind_eq_ok_iff (blind_traverse (hb .value) cs) fun _ _ =>
      blind_foldIf closed_member_const]
    simp only [outcome_traverse_iff (hb .value), outcome_foldIf_eq_ok_iff, Bool.false_eq_true,
      false_and, false_or, true_and, and_assoc]

end

/-- A simplification that has a step for every node follows the rules. -/
theorem rewrites_of_outcome {n : Nat} {u : Usage} {e e' : Expr} (hn : e.nodes ≤ n)
    (h : (optimizeWithin session n u e).outcome = .ok e') : Rewrites session u e e' := by
  induction n generalizing u e e' with
  | zero =>
    have := e.nodes_pos
    omega
  | succ n ih =>
    cases e with
    | const v =>
      obtain rfl := Except.ok.inj h
      exact .const u v
    | column c =>
      obtain rfl := Except.ok.inj h
      exact .column u c
    | param p =>
      obtain rfl := Except.ok.inj h
      exact .param u p
    | compare op l r =>
      simp only [nodes] at hn
      obtain ⟨l', r', hl, hr, hend⟩ := outcome_compare_eq_ok_iff.1 h
      exact .compare (ih (by omega) hl) (ih (by omega) hr) hend
    | nullTest t e =>
      simp only [nodes] at hn
      obtain ⟨o, ho, hend⟩ := outcome_nullTest_eq_ok_iff.1 h
      exact .nullTest (ih (by omega) ho) hend
    | connect op l r =>
      simp only [nodes] at hn
      obtain ⟨l', r', hl, hr, h⟩ := outcome_connect_eq_ok_iff.1 h
      have hl := ih (by omega) hl
      have hr := ih (by omega) hr
      rcases (outcome_connectSimplified_eq_ok_iff (blind_optimizeWithin session n u)).1 h with
        hdrop | ⟨hdrop, ⟨added, added', hmerge, hadded, rfl⟩ | ⟨hmerge, hend⟩⟩
      · exact .repeated hl hr hdrop
      · have hlt := (merges_of_merge? hmerge).nodes_lt_of_grown hl.nodes_le hr.nodes_le
        exact .merged hl hr hdrop hmerge (ih (by omega) hadded)
      · exact .settled hl hr hdrop hmerge hend
    | not e =>
      simp only [nodes] at hn
      cases hneg : e.negate? with
      | some m =>
        have hle := nodes_negate? hneg
        rw [optimizeWithin_not_of_negate? hneg] at h
        exact .pushed hneg (ih (by omega) h)
      | none =>
        obtain ⟨o, ho, hend⟩ := (outcome_not_eq_ok_iff hneg).1 h
        exact .not hneg (ih (by omega) ho) hend
    | member s cs =>
      simp only [nodes] at hn
      obtain ⟨s', hs, ⟨hnull, rfl⟩ | ⟨hnull, cs', hlen, hcs, hend⟩⟩ := outcome_member_eq_ok_iff.1 h
      · exact .memberOfNull (ih (by omega) hs) hnull
      · refine .member (ih (by omega) hs) hnull hlen (fun p hp => ?_) hend
        have hle := nodes_lt_of_mem (List.of_mem_zip hp).1
        exact ih (by omega) (hcs p hp)

theorem exists_step {e : Expr} {n : Nat} (h : e.nodes ≤ n) : ∃ m, n = m + 1 := by
  have hpos := e.nodes_pos
  exact ⟨n - 1, by omega⟩

/-- A rule that applies is followed, given a step for every node. -/
theorem outcome_of_rewrites {u : Usage} {e e' : Expr} (h : Rewrites session u e e') {n : Nat}
    (hn : e.nodes ≤ n) : (optimizeWithin session n u e).outcome = .ok e' := by
  induction h generalizing n with
  | const | column | param =>
    obtain ⟨n, rfl⟩ := exists_step hn
    rfl
  | compare _ _ hend ihl ihr =>
    obtain ⟨n, rfl⟩ := exists_step hn
    simp only [nodes] at hn
    exact outcome_compare_eq_ok_iff.2 ⟨_, _, ihl (by omega), ihr (by omega), hend⟩
  | nullTest _ hend ih =>
    obtain ⟨n, rfl⟩ := exists_step hn
    simp only [nodes] at hn
    exact outcome_nullTest_eq_ok_iff.2 ⟨_, ih (by omega), hend⟩
  | @repeated u op l r l' r' e' _ _ hdrop ihl ihr =>
    obtain ⟨n, rfl⟩ := exists_step hn
    simp only [nodes] at hn
    exact outcome_connect_eq_ok_iff.2 ⟨l', r', ihl (by omega), ihr (by omega),
      (outcome_connectSimplified_eq_ok_iff (blind_optimizeWithin session n u)).2 (.inl hdrop)⟩
  | @merged u op l r l' r' added added' hl hr hdrop hmerge _ ihl ihr ih =>
    obtain ⟨n, rfl⟩ := exists_step hn
    have hlt := (merges_of_merge? hmerge).nodes_lt_of_grown hl.nodes_le hr.nodes_le
    simp only [nodes] at hn
    exact outcome_connect_eq_ok_iff.2 ⟨l', r', ihl (by omega), ihr (by omega),
      (outcome_connectSimplified_eq_ok_iff (blind_optimizeWithin session n u)).2
        (.inr ⟨hdrop, .inl ⟨added, added', hmerge, ih (by omega), rfl⟩⟩)⟩
  | @settled u op l r l' r' e' _ _ hdrop hmerge hend ihl ihr =>
    obtain ⟨n, rfl⟩ := exists_step hn
    simp only [nodes] at hn
    exact outcome_connect_eq_ok_iff.2 ⟨l', r', ihl (by omega), ihr (by omega),
      (outcome_connectSimplified_eq_ok_iff (blind_optimizeWithin session n u)).2
        (.inr ⟨hdrop, .inr ⟨hmerge, hend⟩⟩)⟩
  | pushed hneg _ ih =>
    obtain ⟨n, rfl⟩ := exists_step hn
    have hle := nodes_negate? hneg
    simp only [nodes] at hn
    rw [optimizeWithin_not_of_negate? hneg]
    exact ih (by omega)
  | not hneg _ hend ih =>
    obtain ⟨n, rfl⟩ := exists_step hn
    simp only [nodes] at hn
    exact (outcome_not_eq_ok_iff hneg).2 ⟨_, ih (by omega), hend⟩
  | memberOfNull _ hnull ih =>
    obtain ⟨n, rfl⟩ := exists_step hn
    simp only [nodes] at hn
    exact outcome_member_eq_ok_iff.2 ⟨_, ih (by omega), .inl ⟨hnull, rfl⟩⟩
  | @member u s s' e' cs cs' _ hnull hlen _ hend ihs ihcs =>
    obtain ⟨n, rfl⟩ := exists_step hn
    simp only [nodes] at hn
    refine outcome_member_eq_ok_iff.2 ⟨s', ihs (by omega), .inr ⟨hnull, cs', hlen, ?_, hend⟩⟩
    intro p hp
    have hle := nodes_lt_of_mem (List.of_mem_zip hp).1
    exact ihcs p hp (by omega)

theorem outcome_optimizeWithin_iff {u : Usage} {e e' : Expr} {n : Nat} (hn : e.nodes ≤ n) :
    (optimizeWithin session n u e).outcome = .ok e' ↔ Rewrites session u e e' :=
  ⟨rewrites_of_outcome hn, fun h => outcome_of_rewrites h hn⟩

/-- Simplification succeeds exactly along the rules, whatever is known of the parameters. -/
theorem optimizeFor_eq_ok_iff {u : Usage} {store : Store} {e e' : Expr} :
    ((optimizeFor session u e).run store).1 = .ok e' ↔ Rewrites session u e e' := by
  rw [optimizeFor, (blind_optimizeWithin session e.nodes u e).run_fst store]
  exact outcome_optimizeWithin_iff (Nat.le_refl _)

theorem optimize_eq_ok_iff {store : Store} {e e' : Expr} :
    (optimize session store e).1 = .ok e' ↔ Rewrites session .condition e e' :=
  optimizeFor_eq_ok_iff

end Expr

end RowPredicate
