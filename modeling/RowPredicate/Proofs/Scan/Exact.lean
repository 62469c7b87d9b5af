import RowPredicate.Proofs.Scan.Bounds

/-!
# What a scan admits

The conditions on a column are compared with the keys at one type, the highest of the column's and of
their lookups', by the rules of a collation.

* `Scan.Highest`: that type; `IndexCondition.Meets`: a key meets a condition at a type;
* `gather_spec` and `lookupType_eq`: the lookups that are taken in, and the type they are converted to;
* `ofConditions_spec`: a scan admits a key exactly if the key meets every condition, whatever ended the
  construction of the scan;
* `ofConditions_ok`: the construction succeeds if the lookups can be evaluated and converted;
* `ofConditions_exact`: both together, for every order of the conditions.
-/

namespace RowPredicate

variable {ctx : Context} {k : Collation} {column : Column} {cs : List IndexCondition} {t : DataType}
  {key : Value}

/-- The highest among the types of the column and of the lookups on it other than NULL. -/
structure Scan.Highest (ctx : Context) (column : Column) (cs : List IndexCondition) (t : DataType) :
    Prop where
  column_le : column.type.rank ≤ t.rank
  lookup_le : ∀ c ∈ cs, c.column = column → ∀ v s, c.lookup.eval ctx = .ok v → v ≠ .null →
    (Lookup.mk c v).type? ctx.store = some s → s.rank ≤ t.rank
  among : t = column.type ∨ ∃ c ∈ cs, c.column = column ∧ ∃ v, c.lookup.eval ctx = .ok v ∧
    v ≠ .null ∧ (Lookup.mk c v).type? ctx.store = some t

/-- The key meets the condition when both are compared at the type. A NULL lookup is met by the NULL key
alone, and only under the null-safe equality. -/
def IndexCondition.Meets (ctx : Context) (t : DataType) (c : IndexCondition) (key : Value) : Prop :=
  ∃ op v, c.op = .binary op ∧ c.lookup.eval ctx = .ok v ∧
    if v = .null then op = .equalNullSafe ∧ key = .null
    else key ≠ .null ∧ ∃ a b o, key.convert t = .ok a ∧ v.convert t = .ok b ∧
      ctx.policy.compare a b = .ok o ∧ op.accepts o = true

/-- The operator bounds the keys from a side or pins them. -/
def IndexCondition.Bounding (c : IndexCondition) : Prop :=
  ∃ op, c.op = .binary op ∧ op.isInequality = false

/-! ## Meeting one condition -/

namespace IndexCondition

variable {c : IndexCondition}

theorem meets_null_iff (h : c.lookup.eval ctx = .ok .null) :
    c.Meets ctx t key ↔ c.op = .binary .equalNullSafe ∧ key = .null := by
  constructor
  · rintro ⟨op, v, hop, hv, hmeets⟩
    obtain rfl : Value.null = v := Except.ok.inj (h.symm.trans hv)
    rw [if_pos rfl] at hmeets
    rw [hop, hmeets.1]
    exact ⟨rfl, hmeets.2⟩
  · rintro ⟨hop, hkey⟩
    exact ⟨.equalNullSafe, .null, hop, h, by rw [if_pos rfl]; exact ⟨rfl, hkey⟩⟩

theorem not_meets_null {v : Value} (h : c.lookup.eval ctx = .ok v) (hv : v ≠ .null) :
    ¬ c.Meets ctx t .null := by
  rintro ⟨op, w, -, hw, hmeets⟩
  obtain rfl : v = w := Except.ok.inj (h.symm.trans hw)
  rw [if_neg hv] at hmeets
  exact hmeets.1 rfl

/-- A key other than NULL meets a condition if its place is accepted. -/
theorem meets_iff_accepts {v a : Value} (hk : ctx.policy = k.policy)
    (h : c.lookup.eval ctx = .ok v) (hv : v ≠ .null) (hkey : key ≠ .null) (ha : key.convert t = .ok a) :
    c.Meets ctx t key ↔ (Lookup.mk c v).Accepts k t (k.place a) := by
  rw [Meets, hk]
  have hta := Value.type?_convert hkey ha
  constructor
  · rintro ⟨op, w, hop, hw, hmeets⟩
    obtain rfl : v = w := Except.ok.inj (h.symm.trans hw)
    rw [if_neg hv] at hmeets
    obtain ⟨-, a', b, o, ha', hb, ho, haccept⟩ := hmeets
    obtain rfl : a = a' := Except.ok.inj (ha.symm.trans ha')
    rw [Collation.policy_compare, Collation.compare_eq_cmp hta (Value.type?_convert hv hb)] at ho
    exact ⟨op, b, hop, hb, by rwa [Except.ok.inj ho]⟩
  · rintro ⟨op, b, hop, hb, haccept⟩
    refine ⟨op, v, hop, h, ?_⟩
    rw [if_neg hv]
    exact ⟨hkey, a, b, _, ha, hb, Collation.compare_eq_cmp hta (Value.type?_convert hv hb), haccept⟩

end IndexCondition

/-! ## The lookups -/

/-- What the conditions ask for: nothing if one has a NULL lookup that it does not take for a value, and
otherwise the NULL key for the NULL lookups and each of the other lookups. -/
def Demand.Answers (ctx : Context) (cs : List IndexCondition) : Demand → Prop
  | .nothing => ∃ c ∈ cs, c.lookup.eval ctx = .ok .null ∧ c.op ≠ .binary .equalNullSafe
  | .keys nullKey ls =>
    (∀ c ∈ cs, ∃ v, c.lookup.eval ctx = .ok v ∧
      (v = .null → c.op = .binary .equalNullSafe ∧ nullKey = true) ∧ (v ≠ .null → ⟨c, v⟩ ∈ ls)) ∧
    (∀ l ∈ ls, l.condition ∈ cs ∧ l.condition.lookup.eval ctx = .ok l.value ∧ l.value ≠ .null) ∧
    (nullKey = true → ∃ c ∈ cs, c.lookup.eval ctx = .ok .null)

theorem Demand.Answers.withNullKey {c : IndexCondition} {d : Demand} (h : d.Answers ctx cs)
    (hc : c.lookup.eval ctx = .ok .null) (hop : c.op = .binary .equalNullSafe) :
    d.withNullKey.Answers ctx (c :: cs) := by
  cases d with
  | nothing =>
    obtain ⟨c', hc', hrest⟩ := h
    exact ⟨c', List.mem_cons_of_mem c hc', hrest⟩
  | keys nullKey ls =>
    obtain ⟨hcs, hls, -⟩ := h
    refine ⟨?_, ?_, fun _ => ⟨c, List.mem_cons_self, hc⟩⟩
    · intro c' hc'
      rcases List.mem_cons.1 hc' with rfl | hc'
      · exact ⟨.null, hc, fun _ => ⟨hop, rfl⟩, fun h => absurd rfl h⟩
      · obtain ⟨v, hv, hnull, hvalue⟩ := hcs c' hc'
        exact ⟨v, hv, fun h => ⟨(hnull h).1, rfl⟩, hvalue⟩
    · intro l hl
      exact ⟨List.mem_cons_of_mem c (hls l hl).1, (hls l hl).2⟩

theorem Demand.Answers.withLookup {c : IndexCondition} {v : Value} {d : Demand}
    (h : d.Answers ctx cs) (hc : c.lookup.eval ctx = .ok v) (hv : v ≠ .null) :
    (d.withLookup ⟨c, v⟩).Answers ctx (c :: cs) := by
  cases d with
  | nothing =>
    obtain ⟨c', hc', hrest⟩ := h
    exact ⟨c', List.mem_cons_of_mem c hc', hrest⟩
  | keys nullKey ls =>
    obtain ⟨hcs, hls, hnullKey⟩ := h
    refine ⟨?_, ?_, fun hn => ?_⟩
    · intro c' hc'
      rcases List.mem_cons.1 hc' with rfl | hc'
      · exact ⟨v, hc, fun h => absurd h hv, fun _ => List.mem_cons_self⟩
      · obtain ⟨w, hw, hnull, hvalue⟩ := hcs c' hc'
        exact ⟨w, hw, hnull, fun h => List.mem_cons_of_mem _ (hvalue h)⟩
    · intro l hl
      rcases List.mem_cons.1 hl with rfl | hl
      · exact ⟨List.mem_cons_self, hc, hv⟩
      · exact ⟨List.mem_cons_of_mem c (hls l hl).1, (hls l hl).2⟩
    · obtain ⟨c', hc', hnull⟩ := hnullKey hn
      exact ⟨c', List.mem_cons_of_mem c hc', hnull⟩

theorem gather_spec {d : Demand} (h : gather ctx cs = .ok d) : d.Answers ctx cs := by
  induction cs generalizing d with
  | nil =>
    cases h
    exact ⟨by simp, by simp, by simp⟩
  | cons c cs ih =>
    cases hc : c.lookup.eval ctx with
    | error e => simp [gather, hc, bind, Except.bind] at h
    | ok v =>
      simp only [gather, hc, bind, Except.bind] at h
      split at h
      · next hnull =>
        obtain rfl := Value.isNull_iff.1 hnull
        split at h
        · next hop =>
          cases hrest : gather ctx cs with
          | error e => simp [hrest] at h
          | ok d' =>
            simp only [hrest] at h
            cases h
            exact (ih hrest).withNullKey hc hop
        · next hop =>
          cases h
          exact ⟨c, List.mem_cons_self, hc, hop⟩
      · next hnull =>
        cases hrest : gather ctx cs with
        | error e => simp [hrest] at h
        | ok d' =>
          simp only [hrest] at h
          cases h
          exact (ih hrest).withLookup hc fun h => hnull (Value.isNull_iff.2 h)

theorem gather_ok (h : ∀ c ∈ cs, ∃ v, c.lookup.eval ctx = .ok v) : ∃ d, gather ctx cs = .ok d := by
  induction cs with
  | nil => exact ⟨_, rfl⟩
  | cons c cs ih =>
    obtain ⟨v, hv⟩ := h c List.mem_cons_self
    obtain ⟨d, hd⟩ := ih fun c' hc' => h c' (List.mem_cons_of_mem c hc')
    simp only [gather, hv, hd, bind, Except.bind]
    split
    · split
      · exact ⟨_, rfl⟩
      · exact ⟨_, rfl⟩
    · exact ⟨_, rfl⟩

/-! ## The type of a scan -/

theorem foldl_higher_spec (store : Store) (ls : List Lookup) (s : DataType) :
    let m := ls.foldl (fun t l => (DataType.higher? (some t) (l.type? store)).getD t) s
    s.rank ≤ m.rank ∧ (∀ l ∈ ls, ∀ u, l.type? store = some u → u.rank ≤ m.rank) ∧
      (m = s ∨ ∃ l ∈ ls, l.type? store = some m) := by
  induction ls generalizing s with
  | nil => exact ⟨Nat.le_refl _, by simp, .inl rfl⟩
  | cons l ls ih =>
    obtain ⟨hs, hls, hamong⟩ := ih ((DataType.higher? (some s) (l.type? store)).getD s)
    rw [List.foldl_cons]
    cases hl : l.type? store with
    | none =>
      simp only [hl, DataType.higher?_none_right, Option.getD_some] at hs hls hamong ⊢
      refine ⟨hs, ?_, ?_⟩
      · intro l' hl' u hu
        rcases List.mem_cons.1 hl' with rfl | hl'
        · simp [hl] at hu
        · exact hls l' hl' u hu
      · exact hamong.imp_right fun ⟨l', hl', h⟩ => ⟨l', List.mem_cons_of_mem l hl', h⟩
    | some u =>
      simp only [hl, DataType.higher?, Option.getD_some] at hs hls hamong ⊢
      rw [DataType.rank_higher] at hs
      refine ⟨(le_max_left _ _).trans hs, ?_, ?_⟩
      · intro l' hl' w hw
        rcases List.mem_cons.1 hl' with rfl | hl'
        · rw [hl, Option.some.injEq] at hw
          exact hw ▸ (le_max_right _ _).trans hs
        · exact hls l' hl' w hw
      · rcases hamong with heq | ⟨l', hl', h⟩
        · rw [heq]
          by_cases hle : u.rank ≤ s.rank
          · exact .inl (if_pos hle)
          · exact .inr ⟨l, List.mem_cons_self, by rw [hl, DataType.higher, if_neg hle]⟩
        · exact .inr ⟨l', List.mem_cons_of_mem l hl', h⟩

/-- Among the types of the column and the lookups there is always a highest. -/
theorem exists_highest (ctx : Context) (column : Column) (cs : List IndexCondition) :
    ∃ t, Scan.Highest ctx column cs t := by
  induction cs with
  | nil => exact ⟨column.type, Nat.le_refl _, by simp, .inl rfl⟩
  | cons c cs ih =>
    obtain ⟨t, hcolumn, hlookup, hamong⟩ := ih
    have hmem : t = column.type ∨ ∃ c' ∈ c :: cs, c'.column = column ∧ ∃ v,
        c'.lookup.eval ctx = .ok v ∧ v ≠ .null ∧ (Lookup.mk c' v).type? ctx.store = some t :=
      hamong.imp_right fun ⟨c', hc', hrest⟩ => ⟨c', List.mem_cons_of_mem c hc', hrest⟩
    -- The lookup of `c` counts only if it has a value of a type above all others.
    by_cases habove : c.column = column ∧ ∃ v s, c.lookup.eval ctx = .ok v ∧ v ≠ .null ∧
        (Lookup.mk c v).type? ctx.store = some s ∧ t.rank < s.rank
    · obtain ⟨hcol, v, s, hv, hnull, hs, hlt⟩ := habove
      refine ⟨s, by omega, ?_, .inr ⟨c, List.mem_cons_self, hcol, v, hv, hnull, hs⟩⟩
      intro c' hc' hcol' v' s' hv' hnull' hs'
      rcases List.mem_cons.1 hc' with rfl | hc'
      · obtain rfl := Except.ok.inj (hv.symm.trans hv')
        obtain rfl := Option.some.inj (hs.symm.trans hs')
        exact Nat.le_refl _
      · have := hlookup c' hc' hcol' v' s' hv' hnull' hs'
        omega
    · refine ⟨t, hcolumn, ?_, hmem⟩
      intro c' hc' hcol' v' s' hv' hnull' hs'
      rcases List.mem_cons.1 hc' with rfl | hc'
      · by_contra hlt
        exact habove ⟨hcol', v', s', hv', hnull', hs', by omega⟩
      · exact hlookup c' hc' hcol' v' s' hv' hnull' hs'

/-- The conditions on one column. -/
def onColumn (column : Column) (cs : List IndexCondition) : List IndexCondition :=
  cs.filter fun c => c.column == column

theorem mem_onColumn {c : IndexCondition} :
    c ∈ onColumn column cs ↔ c ∈ cs ∧ c.column = column := by
  simp [onColumn]

/-- The lookups are converted to the highest type. -/
theorem lookupType_eq {nullKey : Bool} {ls : List Lookup} (hT : Scan.Highest ctx column cs t)
    (h : (Demand.keys nullKey ls).Answers ctx (onColumn column cs)) :
    lookupType ctx.store column ls = t := by
  obtain ⟨hcs, hls, -⟩ := h
  obtain ⟨hcolumn, hlookup, hamong⟩ := foldl_higher_spec ctx.store ls column.type
  refine DataType.rank_inj.1 (Nat.le_antisymm ?_ ?_)
  · rcases hamong with heq | ⟨l, hl, htype⟩
    · rw [lookupType, heq]
      exact hT.column_le
    · obtain ⟨hmem, heval, hnull⟩ := hls l hl
      obtain ⟨hmem, hcol⟩ := mem_onColumn.1 hmem
      exact hT.lookup_le l.condition hmem hcol l.value _ heval hnull htype
  · rcases hT.among with rfl | ⟨c, hmem, hcol, v, heval, hnull, htype⟩
    · exact hcolumn
    · obtain ⟨w, hw, -, hin⟩ := hcs c (mem_onColumn.2 ⟨hmem, hcol⟩)
      obtain rfl : v = w := Except.ok.inj (heval.symm.trans hw)
      exact hlookup _ (hin hnull) t htype

/-! ## Exact scans -/

/-- The scan decides every key that can be converted, and admits it exactly if the key meets all the
conditions. -/
def Scan.Exact (ctx : Context) (t : DataType) (cs : List IndexCondition) (scan : Scan) : Prop :=
  ∀ key a, key.convert t = .ok a → ∃ x, scan.admits ctx.policy key = .ok x ∧
    (x = true ↔ ∀ c ∈ cs, c.Meets ctx t key)

theorem exact_empty (h : ∀ key, ¬ ∀ c ∈ cs, c.Meets ctx t key) : Scan.Exact ctx t cs .empty :=
  fun key _ _ => ⟨false, rfl, by simpa using h key⟩

theorem exact_of_nothing (h : Demand.nothing.Answers ctx cs) : Scan.Exact ctx t cs .empty := by
  obtain ⟨c, hc, hnull, hop⟩ := h
  apply exact_empty
  intro key hall
  have hmeets := hall c hc
  rw [IndexCondition.meets_null_iff hnull] at hmeets
  exact hop hmeets.1

/-- Without other lookups, the NULL key is all that is asked for. -/
theorem exact_of_null (h : (Demand.keys true []).Answers ctx cs) :
    Scan.Exact ctx t cs (.exact .null) := by
  obtain ⟨hcs, -, hnull⟩ := h
  intro key a _
  refine ⟨key.isNull, rfl, ?_⟩
  rw [Value.isNull_iff]
  constructor
  · rintro rfl c hc
    obtain ⟨v, hv, hvnull, hvalue⟩ := hcs c hc
    by_cases hn : v = .null
    · subst hn
      exact (IndexCondition.meets_null_iff hv).2 ⟨(hvnull rfl).1, rfl⟩
    · simp at hvalue
      exact absurd hvalue hn
  · intro hall
    obtain ⟨c, hc, hv⟩ := hnull rfl
    exact ((IndexCondition.meets_null_iff hv).1 (hall c hc)).2

/-- No key is NULL and equal to another value. -/
theorem exact_of_both {l : Lookup} {ls : List Lookup}
    (h : (Demand.keys true (l :: ls)).Answers ctx cs) : Scan.Exact ctx t cs .empty := by
  obtain ⟨-, hls, hnull⟩ := h
  apply exact_empty
  intro key hall
  obtain ⟨c, hc, hv⟩ := hnull rfl
  obtain ⟨hl, heval, hvalue⟩ := hls l List.mem_cons_self
  have hkey := ((IndexCondition.meets_null_iff hv).1 (hall c hc)).2
  subst hkey
  exact IndexCondition.not_meets_null heval hvalue (hall _ hl)

/-- A key other than NULL meets the conditions if the lookups accept its place. -/
theorem meets_all_iff {ls : List Lookup} {a : Value} (hk : ctx.policy = k.policy)
    (h : (Demand.keys false ls).Answers ctx cs) (hkey : key ≠ .null) (ha : key.convert t = .ok a) :
    (∀ c ∈ cs, c.Meets ctx t key) ↔
      ∀ l ∈ ls, l.Accepts k t (k.place a) := by
  obtain ⟨hcs, hls, -⟩ := h
  constructor
  · intro hall l hl
    obtain ⟨hmem, heval, hvalue⟩ := hls l hl
    exact (IndexCondition.meets_iff_accepts hk heval hvalue hkey ha).1 (hall _ hmem)
  · intro hall c hc
    obtain ⟨v, hv, hvnull, hvalue⟩ := hcs c hc
    have hne : v ≠ .null := fun h => absurd (hvnull h).2 Bool.false_ne_true
    exact (IndexCondition.meets_iff_accepts hk hv hne hkey ha).2 (hall _ (hvalue hne))

/-- The NULL key does not meet a condition whose lookup has a value. -/
theorem not_meets_all_null {nullKey : Bool} {l : Lookup} {ls : List Lookup}
    (h : (Demand.keys nullKey (l :: ls)).Answers ctx cs) : ¬ ∀ c ∈ cs, c.Meets ctx t .null := by
  obtain ⟨hl, heval, hvalue⟩ := h.2.1 l List.mem_cons_self
  exact fun hall => IndexCondition.not_meets_null heval hvalue (hall _ hl)

/-- Bounds that have taken in all lookups leave the keys that meet all conditions. -/
theorem exact_of_bounds {l : Lookup} {ls : List Lookup} {b : Bounds} (hk : ctx.policy = k.policy)
    (h : (Demand.keys false (l :: ls)).Answers ctx cs)
    (hb : Bounds.Narrowed k t {} (fun p => ∀ x ∈ l :: ls, x.Accepts k t p) (some b)) :
    ∃ scan, b.close ctx.policy = .ok scan ∧ Scan.Exact ctx t cs scan := by
  obtain ⟨hb, hcontains⟩ := hb
  obtain ⟨scan, hclose, htyped, hscan⟩ := Bounds.close_spec hb
  refine ⟨scan, hk ▸ hclose, fun key a ha => ?_⟩
  by_cases hkey : key = .null
  · subst hkey
    exact ⟨false, hk ▸ Scan.admits_null htyped, by simpa using not_meets_all_null h⟩
  · obtain ⟨x, hx, hiff⟩ := Scan.admits_spec (k := k) htyped hkey ha
    refine ⟨x, hk ▸ hx, ?_⟩
    rw [hiff, hscan, hcontains, meets_all_iff hk h hkey ha]
    exact and_iff_right Bounds.contains_unbounded

/-- Bounds that ran out of keys have met equalities that no key meets together. -/
theorem exact_of_exhausted {l : Lookup} {ls : List Lookup} (hk : ctx.policy = k.policy)
    (h : (Demand.keys false (l :: ls)).Answers ctx cs)
    (hb : Bounds.Narrowed k t {} (fun p => ∀ x ∈ l :: ls, x.Accepts k t p) none) :
    Scan.Exact ctx t cs .empty := by
  intro key a ha
  refine ⟨false, rfl, ?_⟩
  simp only [Bool.false_eq_true, false_iff]
  intro hall
  by_cases hkey : key = .null
  · subst hkey
    exact not_meets_all_null h hall
  · exact hb _ ⟨Bounds.contains_unbounded, (meets_all_iff hk h hkey ha).1 hall⟩

theorem bounding_of_answers {nullKey : Bool} {ls : List Lookup} (hops : ∀ c ∈ cs, c.Bounding)
    (h : (Demand.keys nullKey ls).Answers ctx cs) : ∀ l ∈ ls, l.Bounding := by
  intro l hl
  obtain ⟨hmem, -, hnull⟩ := h.2.1 l hl
  exact ⟨hnull, hops _ hmem⟩

theorem onColumn_eq_nil_iff : onColumn column cs = [] ↔ ∀ c ∈ cs, c.column ≠ column := by
  simp [onColumn, List.filter_eq_nil_iff]

/-- No scan is made if no condition is on the column, and otherwise an exact one. -/
theorem ofConditions_spec {r : Option Scan} (hk : ctx.policy = k.policy)
    (hops : ∀ c ∈ onColumn column cs, c.Bounding) (hT : Scan.Highest ctx column cs t)
    (h : Scan.ofConditions ctx column cs = .ok r) :
    (r = none ↔ onColumn column cs = []) ∧ ∀ scan ∈ r, scan.Exact ctx t (onColumn column cs) := by
  have hsome : ∀ {scan : Scan}, onColumn column cs ≠ [] → scan.Exact ctx t (onColumn column cs) →
      (some scan = none ↔ onColumn column cs = []) ∧
        ∀ s ∈ some scan, s.Exact ctx t (onColumn column cs) := by
    intro scan hne hexact
    exact ⟨by simpa using hne, fun s hs => Option.some.inj hs ▸ hexact⟩
  cases hgather : gather ctx (onColumn column cs) with
  | error e =>
    simp only [onColumn] at hgather
    simp [Scan.ofConditions, hgather, bind, Except.bind] at h
  | ok d =>
    have hd := gather_spec hgather
    simp only [onColumn] at hgather
    simp only [Scan.ofConditions, hgather, bind, Except.bind] at h
    cases d with
    | nothing =>
      cases h
      obtain ⟨c, hc, -⟩ := id hd
      exact hsome (List.ne_nil_of_mem hc) (exact_of_nothing hd)
    | keys nullKey ls =>
      cases ls with
      | nil =>
        cases nullKey with
        | true =>
          cases h
          obtain ⟨c, hc, -⟩ := hd.2.2 rfl
          exact hsome (List.ne_nil_of_mem hc) (exact_of_null hd)
        | false =>
          cases h
          refine ⟨iff_of_true rfl (List.eq_nil_iff_forall_not_mem.2 fun c hc => ?_), by simp⟩
          obtain ⟨v, -, hnull, hvalue⟩ := hd.1 c hc
          by_cases hv : v = .null
          · exact Bool.false_ne_true (hnull hv).2
          · exact List.not_mem_nil (hvalue hv)
      | cons l ls =>
        have hne := List.ne_nil_of_mem (hd.2.1 l List.mem_cons_self).1
        cases nullKey with
        | true =>
          cases h
          exact hsome hne (exact_of_both hd)
        | false =>
          dsimp only at h
          rw [lookupType_eq hT hd, hk] at h
          cases hadd : Bounds.addAll k.policy t {} (l :: ls) with
          | error e => simp [hadd] at h
          | ok b =>
            have hb := Bounds.addAll_spec Bounds.typed_unbounded (bounding_of_answers hops hd) hadd
            simp only [hadd] at h
            cases b with
            | none =>
              cases h
              exact hsome hne (exact_of_exhausted hk hd hb)
            | some b =>
              obtain ⟨scan, hclose, hexact⟩ := exact_of_bounds hk hd hb
              rw [hk] at hclose
              simp only [hclose] at h
              cases h
              exact hsome hne hexact

/-- A scan can be made if the lookups on the column can be evaluated and converted. -/
theorem ofConditions_ok (hk : ctx.policy = k.policy) (hops : ∀ c ∈ onColumn column cs, c.Bounding)
    (hT : Scan.Highest ctx column cs t)
    (hlookups : ∀ c ∈ onColumn column cs, ∃ v w, c.lookup.eval ctx = .ok v ∧ v.convert t = .ok w) :
    ∃ r, Scan.ofConditions ctx column cs = .ok r := by
  have heval : ∀ c ∈ onColumn column cs, ∃ v, c.lookup.eval ctx = .ok v := by
    intro c hc
    obtain ⟨v, -, hv, -⟩ := hlookups c hc
    exact ⟨v, hv⟩
  obtain ⟨d, hgather⟩ := gather_ok heval
  have hd := gather_spec hgather
  simp only [onColumn] at hgather
  simp only [Scan.ofConditions, hgather, bind, Except.bind]
  cases d with
  | nothing => exact ⟨_, rfl⟩
  | keys nullKey ls =>
    cases ls with
    | nil => cases nullKey <;> exact ⟨_, rfl⟩
    | cons l ls =>
      cases nullKey with
      | true => exact ⟨_, rfl⟩
      | false =>
        have hconv : ∀ x ∈ l :: ls, ∃ w, x.value.convert t = .ok w := by
          intro x hx
          obtain ⟨hmem, heval, -⟩ := hd.2.1 x hx
          obtain ⟨v, w, hv, hw⟩ := hlookups _ hmem
          obtain rfl : x.value = v := Except.ok.inj (heval.symm.trans hv)
          exact ⟨w, hw⟩
        have hbounding := bounding_of_answers hops hd
        dsimp only
        rw [lookupType_eq hT hd, hk]
        obtain ⟨b, hadd⟩ := Bounds.addAll_ok (k := k) Bounds.typed_unbounded hbounding hconv
        have hb := Bounds.addAll_spec Bounds.typed_unbounded hbounding hadd
        simp only [hadd]
        cases b with
        | none => exact ⟨_, rfl⟩
        | some b =>
          obtain ⟨scan, hclose, -⟩ := exact_of_bounds hk hd hb
          rw [hk] at hclose
          simp only [hclose]
          exact ⟨_, rfl⟩

theorem Scan.Highest.of_perm {cs' : List IndexCondition} (h : Scan.Highest ctx column cs t)
    (hperm : cs'.Perm cs) : Scan.Highest ctx column cs' t where
  column_le := h.column_le
  lookup_le c hc := h.lookup_le c (hperm.mem_iff.1 hc)
  among := h.among.imp_right fun ⟨c, hc, hrest⟩ => ⟨c, hperm.mem_iff.2 hc, hrest⟩

theorem forall_onColumn {P : IndexCondition → Prop} :
    (∀ c ∈ onColumn column cs, P c) ↔ ∀ c ∈ cs, c.column = column → P c := by
  simp [onColumn]

/-- Under a collation, the conditions on a column leave no scan if there are none, and otherwise a scan
that admits a key exactly if the key meets them all, compared at the highest type. In any other order
they leave a scan that admits the same keys. -/
theorem ofConditions_exact (hk : ctx.policy = k.policy) (hops : ∀ c ∈ cs, c.Bounding)
    (hT : Scan.Highest ctx column cs t)
    (hlookups : ∀ c ∈ cs, c.column = column →
      ∃ v w, c.lookup.eval ctx = .ok v ∧ v.convert t = .ok w) :
    ∃ r, Scan.ofConditions ctx column cs = .ok r ∧ (r = none ↔ ∀ c ∈ cs, c.column ≠ column) ∧
      ∀ scan, r = some scan →
        (∀ key a, key.convert t = .ok a → ∃ x, scan.admits ctx.policy key = .ok x ∧
          (x = true ↔ ∀ c ∈ cs, c.column = column → c.Meets ctx t key)) ∧
        ∀ cs', cs'.Perm cs → ∃ scan', Scan.ofConditions ctx column cs' = .ok (some scan') ∧
          ∀ key a, key.convert t = .ok a →
            scan'.admits ctx.policy key = scan.admits ctx.policy key := by
  have hexact : ∀ cs', cs'.Perm cs → ∃ r, Scan.ofConditions ctx column cs' = .ok r ∧
      (r = none ↔ ∀ c ∈ cs, c.column ≠ column) ∧ ∀ scan, r = some scan → ∀ key a,
        key.convert t = .ok a → ∃ x, scan.admits ctx.policy key = .ok x ∧
          (x = true ↔ ∀ c ∈ cs, c.column = column → c.Meets ctx t key) := by
    intro cs' hperm
    have hops' : ∀ c ∈ onColumn column cs', c.Bounding :=
      forall_onColumn.2 fun c hc _ => hops c (hperm.mem_iff.1 hc)
    have hT' := hT.of_perm hperm
    obtain ⟨r, hr⟩ := ofConditions_ok hk hops' hT' <|
      forall_onColumn.2 fun c hc => hlookups c (hperm.mem_iff.1 hc)
    obtain ⟨hnone, hscan⟩ := ofConditions_spec hk hops' hT' hr
    refine ⟨r, hr, ?_, fun scan hsome key a ha => ?_⟩
    · rw [hnone, onColumn_eq_nil_iff]
      exact forall_congr' fun c => by rw [hperm.mem_iff]
    · obtain ⟨x, hx, hiff⟩ := hscan scan hsome key a ha
      refine ⟨x, hx, hiff.trans (forall_onColumn.trans ?_)⟩
      exact forall_congr' fun c => by rw [hperm.mem_iff]
  obtain ⟨r, hr, hnone, hscan⟩ := hexact cs (.refl cs)
  refine ⟨r, hr, hnone, fun scan hsome => ⟨hscan scan hsome, fun cs' hperm => ?_⟩⟩
  obtain ⟨r', hr', hnone', hscan'⟩ := hexact cs' hperm
  cases r' with
  | none =>
    have hr := hnone.2 (hnone'.1 rfl)
    simp [hsome] at hr
  | some scan' =>
    refine ⟨scan', hr', fun key a ha => ?_⟩
    obtain ⟨x, hx, hxiff⟩ := hscan scan hsome key a ha
    obtain ⟨y, hy, hyiff⟩ := hscan' scan' rfl key a ha
    rw [hx, hy, Bool.eq_iff_iff.2 (hyiff.trans hxiff.symm)]

/-- A column of integers. -/
def width : Column := ⟨⟨0⟩, "T", "WIDTH", 0, .int⟩

/-- `WIDTH < 9`, `WIDTH >= 5` with a wider constant, and `WIDTH IS 7`. -/
def window : List IndexCondition :=
  [⟨.binary .less, width, .const (.int 9)⟩, ⟨.binary .greaterOrEqual, width, .const (.bigint 5)⟩,
    ⟨.binary .equalNullSafe, width, .const (.int 7)⟩]

def bareContext : Context := ⟨Collation.policy ⟨false⟩, .empty, .empty⟩

theorem highest_window : Scan.Highest bareContext width window .bigint where
  column_le := by decide
  lookup_le c hc _ v s hv _ hs := by
    simp only [window, List.mem_cons, List.not_mem_nil, or_false] at hc
    rcases hc with rfl | rfl | rfl <;> cases hv <;> cases hs <;> decide
  among := .inr ⟨⟨.binary .greaterOrEqual, width, .const (.bigint 5)⟩, by simp [window], rfl,
    .bigint 5, rfl, by simp, rfl⟩

theorem ofConditions_exact_window :
    ∃ scan, Scan.ofConditions bareContext width window = .ok (some scan) ∧
      ∃ x, scan.admits bareContext.policy (.int 7) = .ok x ∧
        (x = true ↔ ∀ c ∈ window, c.column = width → c.Meets bareContext .bigint (.int 7)) := by
  have hops : ∀ c ∈ window, c.Bounding := by
    intro c hc
    simp only [window, List.mem_cons, List.not_mem_nil, or_false] at hc
    rcases hc with rfl | rfl | rfl <;> exact ⟨_, rfl, rfl⟩
  have hlookups : ∀ c ∈ window, c.column = width →
      ∃ v w, c.lookup.eval bareContext = .ok v ∧ v.convert .bigint = .ok w := by
    intro c hc _
    simp only [window, List.mem_cons, List.not_mem_nil, or_false] at hc
    rcases hc with rfl | rfl | rfl <;> exact ⟨_, _, rfl, rfl⟩
  obtain ⟨r, hr, hnone, hscan⟩ := ofConditions_exact (k := ⟨false⟩) rfl hops highest_window hlookups
  cases r with
  | none => exact absurd rfl (hnone.1 rfl ⟨.binary .less, width, .const (.int 9)⟩ (by simp [window]))
  | some scan => exact ⟨scan, hr, (hscan scan rfl).1 (.int 7) (.bigint 7) rfl⟩

end RowPredicate
