import RowPredicate.Proofs.Settings.Segments

/-!
# What a settings text sets

A text of assignments is read from left to right: it is accepted if each of its segments is an assignment,
and a switch then stands where the last one has put it.

* `Switch.Named`, `Switch.Positioned`: the words for a switch, and for its positions;
* `Sets` and `Rejects`, `Assigns` and `Refuses`: what a key with a value, and a segment, set, and why they
  may not; `setSegment_eq_ok_iff`, `setSegment_eq_error_iff`: one step of the reading;
* `LastAssigned`: the position in which a switch is left;
* `foldlM_setSegment_ok_iff`, `get_eq_iff_of_foldlM`, `foldlM_setSegment_error_iff`: a whole reading;
* `setAll`, `succeeding`: a run of calls, of which some may fail;
* `assignments_spec`: what is read from a text, and what a run of calls leaves.
-/

namespace RowPredicate

/-- An entry of a table is found by its word, letter case aside, if no two entries dispute a word. -/
theorem Text.find?_eq_some_iff {β : Type} {table : List (String × β)} {word : String} {b : β}
    (hsame : ∀ x ∈ table, ∀ y ∈ table, sameWord x.1 y.1 = true → x.2 = y.2) :
    (table.find? fun entry => sameWord entry.1 word).map (·.2) = some b ↔
      ∃ name, (name, b) ∈ table ∧ sameWord name word = true := by
  constructor
  · intro h
    obtain ⟨⟨name, b'⟩, hfind, rfl⟩ := Option.map_eq_some_iff.1 h
    have hword := List.find?_some (p := fun entry : String × β => sameWord entry.1 word) hfind
    exact ⟨name, List.mem_of_find?_eq_some hfind, hword⟩
  · rintro ⟨name, hmem, hword⟩
    have hsome : (table.find? fun entry => sameWord entry.1 word).isSome = true := by
      rw [List.find?_isSome]
      exact ⟨_, hmem, hword⟩
    obtain ⟨found, hfind⟩ := Option.isSome_iff_exists.1 hsome
    have hfound := List.find?_some (p := fun entry : String × β => sameWord entry.1 word) hfind
    have hnames : sameWord found.1 name = true := by
      rw [sameWord_iff] at hfound hword ⊢
      rw [hfound, hword]
    have hb : found.2 = b := hsame found (List.mem_of_find?_eq_some hfind) (name, b) hmem hnames
    rw [hfind, Option.map_some, hb]

namespace Switch

def spellings : Switch → List String
  | .optimizeIsNull => ["OPTIMIZE_IS_NULL"]
  | .optimizeOr => ["OPTIMIZE_OR"]
  | .optimizeTwoEquals => ["OPTIMIZE_TWO_EQUALS"]
  | .ignoreCase => ["IGNORECASE", "IGNORE_CASE"]

def words : Bool → List String
  | true => ["TRUE", "1"]
  | false => ["FALSE", "0"]

/-- The key is a spelling of the switch, letter case aside. -/
def Named (key : String) (switch : Switch) : Prop :=
  ∃ name ∈ switch.spellings, Text.sameWord name key = true

/-- The value is a word for the position, letter case aside. -/
def Positioned (value : String) (position : Bool) : Prop :=
  ∃ word ∈ words position, Text.sameWord word value = true

theorem mem_names_iff {name : String} {switch : Switch} :
    (name, switch) ∈ names ↔ name ∈ switch.spellings := by
  cases switch <;> simp [names, spellings]

theorem mem_positions_iff {word : String} {position : Bool} :
    (word, position) ∈ positions ↔ word ∈ words position := by
  cases position <;> simp [positions, words]

theorem named?_eq_some_iff {key : String} {switch : Switch} :
    named? key = some switch ↔ Named key switch := by
  have hsame : ∀ x ∈ names, ∀ y ∈ names, Text.sameWord x.1 y.1 = true → x.2 = y.2 := by
    decide +kernel
  simp only [named?, Text.find?_eq_some_iff hsame, mem_names_iff, Named]

theorem position?_eq_some_iff {value : String} {position : Bool} :
    position? value = some position ↔ Positioned value position := by
  have hsame : ∀ x ∈ positions, ∀ y ∈ positions, Text.sameWord x.1 y.1 = true → x.2 = y.2 := by
    decide +kernel
  simp only [position?, Text.find?_eq_some_iff hsame, mem_positions_iff, Positioned]

end Switch

namespace Settings

/-! ## One assignment -/

/-- The key and the value put the switch into the position. -/
def Sets (key value : String) (switch : Switch) (position : Bool) : Prop :=
  switch.Named key ∧ Switch.Positioned value position

/-- Why the key and the value set nothing. A bad value is reported before an unknown key. -/
inductive Rejects (key value : String) : SettingError → Prop where
  | invalidValue (h : ∀ position, ¬ Switch.Positioned value position) :
      Rejects key value (.invalidValue key value)
  | unknownKey {position : Bool} (h : Switch.Positioned value position)
      (hkey : ∀ switch : Switch, ¬ switch.Named key) : Rejects key value (.unknownKey key)

/-- The segment puts the switch into the position. -/
def Assigns (seg : List Char) (switch : Switch) (position : Bool) : Prop :=
  ∃ key value, Sides seg key value ∧ Sets key value switch position

/-- Why the segment sets nothing. -/
inductive Refuses (seg : List Char) : SettingError → Prop where
  | missingValue (h : '=' ∉ seg) : Refuses seg (.missingValue (String.ofList seg))
  | assignment {key value : String} {e : SettingError} (h : Sides seg key value)
      (rejects : Rejects key value e) : Refuses seg e

variable {s t : Settings} {key value : String} {seg : List Char} {segs : List (List Char)}
  {switch : Switch} {position : Bool} {e : SettingError}

theorem set_eq_ok_iff :
    s.set key value = .ok t ↔ ∃ switch position, Sets key value switch position ∧
      t = s.assign switch position := by
  simp only [Sets, ← Switch.named?_eq_some_iff, ← Switch.position?_eq_some_iff, set, trySet]
  cases Switch.position? value with
  | none => simp
  | some position =>
    cases Switch.named? key with
    | none => simp
    | some switch =>
      constructor
      · rintro ⟨⟩
        exact ⟨switch, position, ⟨rfl, rfl⟩, rfl⟩
      · rintro ⟨_, _, ⟨⟨⟩, ⟨⟩⟩, rfl⟩
        rfl

theorem set_eq_error_iff : s.set key value = .error e ↔ Rejects key value e := by
  have hrejects : Rejects key value e ↔
      Switch.position? value = none ∧ e = .invalidValue key value ∨
        (∃ position, Switch.position? value = some position) ∧ Switch.named? key = none ∧
          e = .unknownKey key := by
    simp only [Option.eq_none_iff_forall_ne_some, ne_eq, Switch.position?_eq_some_iff,
      Switch.named?_eq_some_iff]
    constructor
    · rintro (h | ⟨h, hkey⟩)
      · exact .inl ⟨h, rfl⟩
      · exact .inr ⟨⟨_, h⟩, hkey, rfl⟩
    · rintro (⟨h, rfl⟩ | ⟨⟨_, h⟩, hkey, rfl⟩)
      · exact .invalidValue h
      · exact .unknownKey h hkey
  rw [hrejects, set, trySet]
  cases Switch.position? value with
  | none => simp [eq_comm]
  | some position => cases Switch.named? key <;> simp [eq_comm]

/-- One step of the reading: an assignment is carried out. -/
theorem setSegment_eq_ok_iff :
    s.setSegment seg = .ok t ↔ ∃ switch position, Assigns seg switch position ∧
      t = s.assign switch position := by
  simp only [Assigns, ← keyValue?_eq_some_iff, setSegment]
  cases keyValue? seg with
  | none => simp
  | some sides =>
    obtain ⟨key, value⟩ := sides
    simp only [set_eq_ok_iff, Option.some.injEq, Prod.mk.injEq]
    constructor
    · rintro ⟨switch, position, hsets, rfl⟩
      exact ⟨switch, position, ⟨key, value, ⟨rfl, rfl⟩, hsets⟩, rfl⟩
    · rintro ⟨switch, position, ⟨_, _, ⟨rfl, rfl⟩, hsets⟩, rfl⟩
      exact ⟨switch, position, hsets, rfl⟩

/-- One step of the reading: anything else is refused. -/
theorem setSegment_eq_error_iff : s.setSegment seg = .error e ↔ Refuses seg e := by
  cases hsides : keyValue? seg with
  | none =>
    have hno : ∀ key value, ¬ Sides seg key value := by
      simp [← keyValue?_eq_some_iff, hsides]
    simp only [setSegment, hsides]
    constructor
    · rintro ⟨⟩
      exact .missingValue (keyValue?_eq_none_iff.1 hsides)
    · rintro (- | ⟨h, -⟩)
      · rfl
      · exact absurd h (hno _ _)
  | some sides =>
    obtain ⟨key, value⟩ := sides
    simp only [setSegment, hsides, set_eq_error_iff]
    constructor
    · exact .assignment (keyValue?_eq_some_iff.1 hsides)
    · rintro (h | ⟨h, hrejects⟩)
      · simp [keyValue?_eq_none_iff.2 h] at hsides
      · rw [keyValue?_eq_some_iff.2 h] at hsides
        obtain ⟨rfl, rfl⟩ := Prod.mk.inj (Option.some.inj hsides)
        exact hrejects

/-- A segment assigns at most one switch. -/
theorem Assigns.unique {a b : Switch} {p q : Bool} (ha : Assigns seg a p) (hb : Assigns seg b q) :
    a = b ∧ p = q := by
  have hassign : ∀ s : Settings, s.assign a p = s.assign b q := fun s => by
    have h : s.setSegment seg = .ok (s.assign a p) := setSegment_eq_ok_iff.2 ⟨a, p, ha, rfl⟩
    rw [setSegment_eq_ok_iff.2 ⟨b, q, hb, rfl⟩] at h
    exact (Except.ok.inj h).symm
  have hget := congrArg (·.get a) (hassign (({} : Settings).assign a !p))
  by_cases hab : a = b
  · exact ⟨hab, by simpa [hab] using hget⟩
  · simp [hab] at hget

theorem Assigns.not_refuses (h : Assigns seg switch position) : ¬ Refuses seg e := by
  intro hrefuses
  have hok : ({} : Settings).setSegment seg = .ok (({} : Settings).assign switch position) :=
    setSegment_eq_ok_iff.2 ⟨switch, position, h, rfl⟩
  rw [setSegment_eq_error_iff.2 hrefuses] at hok
  cases hok

theorem Refuses.unique {e' : SettingError} (h : Refuses seg e) (h' : Refuses seg e') : e = e' := by
  have herror : ({} : Settings).setSegment seg = .error e := setSegment_eq_error_iff.2 h
  rw [setSegment_eq_error_iff.2 h'] at herror
  exact (Except.error.inj herror).symm

/-! ## A whole reading -/

/-- Where the segments leave a switch: in the position of the last one that assigns it, or where it was. -/
inductive LastAssigned (segs : List (List Char)) (switch : Switch) (before : Bool) : Bool → Prop where
  | last {earlier later : List (List Char)} {seg : List Char} {position : Bool}
      (h : segs = earlier ++ seg :: later) (assigns : Assigns seg switch position)
      (untouched : ∀ x ∈ later, ∀ q, ¬ Assigns x switch q) : LastAssigned segs switch before position
  | never (untouched : ∀ x ∈ segs, ∀ q, ¬ Assigns x switch q) : LastAssigned segs switch before before

theorem lastAssigned_nil {before : Bool} :
    LastAssigned [] switch before position ↔ before = position := by
  constructor
  · intro h
    cases h with
    | last h _ _ => simp at h
    | never _ => rfl
  · rintro rfl
    exact .never (by simp)

/-- What one segment does to a switch is where the later ones find it. -/
theorem lastAssigned_cons {a : Switch} {p before : Bool} (hseg : Assigns seg a p) :
    LastAssigned (seg :: segs) switch before position ↔
      LastAssigned segs switch (if switch = a then p else before) position := by
  constructor
  · intro h
    cases h with
    | @last earlier later x _ h assigns untouched =>
      cases earlier with
      | nil =>
        obtain ⟨rfl, rfl⟩ := List.cons.inj h
        obtain ⟨rfl, rfl⟩ := hseg.unique assigns
        rw [if_pos rfl]
        exact .never untouched
      | cons y earlier =>
        obtain ⟨rfl, rfl⟩ := List.cons.inj h
        exact .last rfl assigns untouched
    | never untouched =>
      have hne : switch ≠ a := by
        rintro rfl
        exact untouched seg List.mem_cons_self p hseg
      rw [if_neg hne]
      exact .never fun x hx => untouched x (List.mem_cons_of_mem _ hx)
  · intro h
    cases h with
    | last h assigns untouched =>
      rw [h, ← List.cons_append]
      exact .last rfl assigns untouched
    | never untouched =>
      by_cases heq : switch = a
      · subst heq
        rw [if_pos rfl]
        rw [← List.nil_append (seg :: segs)]
        exact .last rfl hseg untouched
      · rw [if_neg heq]
        refine .never fun x hx q => ?_
        rcases List.mem_cons.1 hx with rfl | hx
        · exact fun hx => heq (hx.unique hseg).1
        · exact untouched x hx q

/-- The refusal that a reading stops with: that of the first segment that is no assignment. -/
def FirstRefused (segs : List (List Char)) (e : SettingError) : Prop :=
  ∃ earlier seg later, segs = earlier ++ seg :: later ∧
    (∀ x ∈ earlier, ∃ switch position, Assigns x switch position) ∧ Refuses seg e

theorem firstRefused_cons_of_assigns {a : Switch} {p : Bool} (hseg : Assigns seg a p) :
    FirstRefused (seg :: segs) e ↔ FirstRefused segs e := by
  constructor
  · rintro ⟨earlier, x, later, h, hearlier, hx⟩
    cases earlier with
    | nil =>
      obtain ⟨rfl, rfl⟩ := List.cons.inj h
      exact absurd hx hseg.not_refuses
    | cons y earlier =>
      obtain ⟨rfl, rfl⟩ := List.cons.inj h
      exact ⟨earlier, x, later, rfl, fun z hz => hearlier z (List.mem_cons_of_mem _ hz), hx⟩
  · rintro ⟨earlier, x, later, rfl, hearlier, hx⟩
    exact ⟨seg :: earlier, x, later, rfl, List.forall_mem_cons.2 ⟨⟨a, p, hseg⟩, hearlier⟩, hx⟩

theorem firstRefused_cons_of_refuses {e' : SettingError} (hseg : Refuses seg e') :
    FirstRefused (seg :: segs) e ↔ e' = e := by
  constructor
  · rintro ⟨earlier, x, later, h, hearlier, hx⟩
    cases earlier with
    | nil =>
      obtain ⟨rfl, rfl⟩ := List.cons.inj h
      exact hseg.unique hx
    | cons y earlier =>
      obtain ⟨rfl, rfl⟩ := List.cons.inj h
      obtain ⟨a, p, hassigns⟩ := hearlier seg List.mem_cons_self
      exact absurd hseg hassigns.not_refuses
  · rintro rfl
    exact ⟨[], seg, segs, rfl, by simp, hseg⟩

theorem foldlM_cons_of_ok (h : s.setSegment seg = .ok t) :
    (seg :: segs).foldlM setSegment s = segs.foldlM setSegment t := by
  rw [List.foldlM_cons, h]
  rfl

theorem foldlM_cons_of_error (h : s.setSegment seg = .error e) :
    (seg :: segs).foldlM setSegment s = .error e := by
  rw [List.foldlM_cons, h]
  rfl

/-- A reading leaves every switch where the last segment that assigns it has put it. -/
theorem get_eq_iff_of_foldlM (h : segs.foldlM setSegment s = .ok t) :
    t.get switch = position ↔ LastAssigned segs switch (s.get switch) position := by
  induction segs generalizing s with
  | nil =>
    obtain rfl := Except.ok.inj h
    exact lastAssigned_nil.symm
  | cons seg segs ih =>
    cases hstep : s.setSegment seg with
    | error e =>
      rw [foldlM_cons_of_error hstep] at h
      cases h
    | ok after =>
      obtain ⟨a, p, hseg, rfl⟩ := setSegment_eq_ok_iff.1 hstep
      rw [foldlM_cons_of_ok hstep] at h
      rw [ih h, lastAssigned_cons hseg, get_assign]

/-- A reading fails where it meets the first segment that is no assignment. -/
theorem foldlM_setSegment_eq_error_iff :
    segs.foldlM setSegment s = .error e ↔ FirstRefused segs e := by
  induction segs generalizing s with
  | nil => simp [FirstRefused, pure, Except.pure]
  | cons seg segs ih =>
    cases hstep : s.setSegment seg with
    | error e' =>
      have hseg := setSegment_eq_error_iff.1 hstep
      rw [foldlM_cons_of_error hstep, firstRefused_cons_of_refuses hseg, Except.error.injEq]
    | ok after =>
      obtain ⟨a, p, hseg, rfl⟩ := setSegment_eq_ok_iff.1 hstep
      rw [foldlM_cons_of_ok hstep, firstRefused_cons_of_assigns hseg, ih]

/-- A reading succeeds if every segment is an assignment. -/
theorem foldlM_setSegment_ok_iff :
    (∃ t, segs.foldlM setSegment s = .ok t) ↔
      ∀ seg ∈ segs, ∃ switch position, Assigns seg switch position := by
  induction segs generalizing s with
  | nil => simp [pure, Except.pure]
  | cons seg segs ih =>
    rw [List.forall_mem_cons]
    cases hstep : s.setSegment seg with
    | error e =>
      rw [foldlM_cons_of_error hstep]
      constructor
      · rintro ⟨t, ⟨⟩⟩
      · rintro ⟨⟨a, p, hseg⟩, -⟩
        exact absurd (setSegment_eq_error_iff.1 hstep) hseg.not_refuses
    | ok after =>
      obtain ⟨a, p, hseg, rfl⟩ := setSegment_eq_ok_iff.1 hstep
      rw [foldlM_cons_of_ok hstep, ih]
      exact (and_iff_right ⟨a, p, hseg⟩).symm

/-! ## A run of calls -/

/-- The settings after a run of calls, some of which may have failed. -/
def setAll (s : Settings) (calls : List (String × String)) : Settings :=
  calls.foldl (fun s call => (s.trySet call.1 call.2).2) s

/-- The calls of a run that do not fail. -/
def succeeding (s : Settings) : List (String × String) → List (String × String)
  | [] => []
  | call :: calls =>
    match s.trySet call.1 call.2 with
    | (none, after) => call :: after.succeeding calls
    | (some _, after) => after.succeeding calls

/-- What is refused has not been written. -/
theorem eq_of_trySet_fails (h : (s.trySet key value).1 = some e) : (s.trySet key value).2 = s := by
  unfold trySet at h ⊢
  split
  · rfl
  · next position hposition =>
    split
    · rfl
    · next switch hswitch => simp [hposition, hswitch] at h

/-- Without the calls that fail, a run goes through and ends in the same settings. -/
theorem foldlM_succeeding (s : Settings) (calls : List (String × String)) :
    (s.succeeding calls).foldlM (fun s call => s.set call.1 call.2) s = .ok (s.setAll calls) := by
  induction calls generalizing s with
  | nil => rfl
  | cons call calls ih =>
    rw [setAll, List.foldl_cons, ← setAll, succeeding]
    split
    · next after hcall =>
      have hset : s.set call.1 call.2 = .ok after := by rw [set, hcall]
      rw [List.foldlM_cons, hset, hcall]
      exact ih after
    · next refusal after hcall =>
      have hafter := eq_of_trySet_fails (congrArg Prod.fst hcall)
      rw [hcall] at hafter ⊢
      obtain rfl : after = s := hafter
      exact ih after

/-- A text is accepted if each of its segments is an assignment. What is read from it has every switch where
the last segment assigning it has put it, and at its default if there is none; what it is refused with is the
refusal of the first segment that is no assignment. A call that fails leaves the settings alone, and a run of
calls ends where those that succeed lead to. -/
theorem assignments_spec :
    (∀ text : String, ∃ segs, (∀ xs, Segmented text.toList xs ↔ xs = segs) ∧
      ((∃ s, parse text = .ok s) ↔ ∀ seg ∈ segs, ∃ switch position, Assigns seg switch position) ∧
      (∀ s, parse text = .ok s → ∀ switch position,
        s.get switch = position ↔ LastAssigned segs switch (({} : Settings).get switch) position) ∧
      ∀ e, parse text = .error e ↔ FirstRefused segs e) ∧
    (∀ (s : Settings) (key value : String) (e : SettingError),
      (s.trySet key value).1 = some e → (s.trySet key value).2 = s) ∧
    ∀ (s : Settings) (calls : List (String × String)),
      (s.succeeding calls).foldlM (fun s call => s.set call.1 call.2) s = .ok (s.setAll calls) := by
  refine ⟨fun text => ⟨segments text, fun xs => ?_, foldlM_setSegment_ok_iff,
    fun s hs switch position => get_eq_iff_of_foldlM hs, fun e => foldlM_setSegment_eq_error_iff⟩,
    fun s key value e => eq_of_trySet_fails, foldlM_succeeding⟩
  rw [← segments_eq_iff, eq_comm]

/-- Two spellings of one switch, the second with a second equals sign. -/
example : parse " IGNORECASE = 1 ;; ignore_case = =0 " = .error (.invalidValue "ignore_case" "=0") := by
  decide

end Settings

end RowPredicate
