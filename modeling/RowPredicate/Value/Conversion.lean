import RowPredicate.Error
import RowPredicate.Text.Blank
import RowPredicate.Truth

/-!
# Converting values

* `toBoolean?`, `toInteger?`, `toDouble?`: what a value means as a truth value, a whole number or a
  double;
* `convert`: a value of the wanted type, or the error that names the value and the type; NULL stays NULL
  and a value of the wanted type stays itself (`convert_null`, `convert_of_type?`);
* `truth`: the three-valued reading of a value.
-/

namespace RowPredicate

namespace Value

/-- The words for TRUE and FALSE, in lower case. -/
def booleanWords : List (List Char × Bool) :=
  [("true".toList, true), ("t".toList, true), ("yes".toList, true), ("y".toList, true),
   ("1".toList, true), ("false".toList, false), ("f".toList, false), ("no".toList, false),
   ("n".toList, false), ("0".toList, false)]

/-- Reads a truth word, blanks around it and letter case aside. -/
def readBoolean? (s : List Char) : Option Bool :=
  booleanWords.lookup (Text.lower (Text.trim s))

/-- Every number but zero is TRUE, a NaN too. -/
def toBoolean? : Value → Option Bool
  | .null => none
  | .boolean b => some b
  | .int i => some (i != 0)
  | .bigint i => some (i != 0)
  | .double d => some (!d.isZero)
  | .varchar s => readBoolean? s.toList

/-- TRUE is one and FALSE zero; a double goes to the nearest integer. -/
def toInteger? : Value → Option Int
  | .null => none
  | .boolean b => some (if b then 1 else 0)
  | .int i => some i.toInt
  | .bigint i => some i.toInt
  | .double d => d.nearestInt?
  | .varchar s => Numeral.read? (Text.trim s.toList)

def toDouble? : Value → Option Double
  | .null => none
  | .boolean b => some (.ofInt (if b then 1 else 0))
  | .int i => some (.ofInt i.toInt)
  | .bigint i => some (.ofInt i.toInt)
  | .double d => some d
  | .varchar s => Double.read? (Text.trim s.toList)

/-- The 32-bit integer of the given value, if it fits. -/
def int32? (i : Int) : Option Int32 :=
  if -0x80000000 ≤ i ∧ i < 0x80000000 then some (Int32.ofInt i) else none

/-- The 64-bit integer of the given value, if it fits. -/
def int64? (i : Int) : Option Int64 :=
  if -0x8000000000000000 ≤ i ∧ i < 0x8000000000000000 then some (Int64.ofInt i) else none

/-- The counterpart of a value among the values of a type. NULL belongs to every type. -/
def convert? (v : Value) (target : DataType) : Option Value :=
  if v.isNull then some .null
  else
    match target with
    | .boolean => v.toBoolean?.map .boolean
    | .int => (v.toInteger?.bind int32?).map .int
    | .bigint => (v.toInteger?.bind int64?).map .bigint
    | .double => v.toDouble?.map .double
    | .varchar => some (.varchar v.display)

def convert (v : Value) (target : DataType) : Except Error Value :=
  match v.convert? target with
  | some w => .ok w
  | none => .error (.conversion v target)

/-- Whether a value, read as a boolean, is true, false or unknown. -/
def truth (v : Value) : Except Error Truth :=
  if v.isNull then .ok .unknown
  else
    match v.toBoolean? with
    | some b => .ok (.ofBool b)
    | none => .error (.conversion v .boolean)

/-- A truth value as the value of a condition. -/
def ofTruth : Truth → Value
  | .yes => .boolean true
  | .no => .boolean false
  | .unknown => .null

theorem int32?_toInt (i : Int32) : int32? i.toInt = some i := by
  rw [int32?, if_pos ⟨i.le_toInt, i.toInt_lt⟩, Int32.ofInt_toInt]

theorem int64?_toInt (i : Int64) : int64? i.toInt = some i := by
  rw [int64?, if_pos ⟨i.le_toInt, i.toInt_lt⟩, Int64.ofInt_toInt]

theorem int32?_eq_some_iff {i : Int} {w : Int32} : int32? i = some w ↔ w.toInt = i := by
  constructor
  · intro h
    unfold int32? at h
    split at h
    · next hi =>
      simp only [Option.some.injEq] at h
      rw [← h, Int32.toInt_ofInt_of_le hi.1 hi.2]
    · simp at h
  · rintro rfl
    exact int32?_toInt w

theorem int64?_eq_some_iff {i : Int} {w : Int64} : int64? i = some w ↔ w.toInt = i := by
  constructor
  · intro h
    unfold int64? at h
    split at h
    · next hi =>
      simp only [Option.some.injEq] at h
      rw [← h, Int64.toInt_ofInt_of_le hi.1 hi.2]
    · simp at h
  · rintro rfl
    exact int64?_toInt w

theorem convert?_of_ne_null {v : Value} (hv : v ≠ .null) (target : DataType) :
    v.convert? target =
      match target with
      | .boolean => v.toBoolean?.map .boolean
      | .int => (v.toInteger?.bind int32?).map .int
      | .bigint => (v.toInteger?.bind int64?).map .bigint
      | .double => v.toDouble?.map .double
      | .varchar => some (.varchar v.display) := by
  unfold convert?
  rw [isNull_eq_false_iff.2 hv, if_neg Bool.false_ne_true]

theorem convert_eq_ok_iff {v w : Value} {target : DataType} :
    v.convert target = .ok w ↔ v.convert? target = some w := by
  unfold convert
  cases v.convert? target <;> simp

@[simp] theorem convert_null (target : DataType) : convert .null target = .ok .null := by
  cases target <;> rfl

/-- A value of the wanted type is its own conversion. -/
theorem convert_of_type? {v : Value} {target : DataType} (h : v.type? = some target) :
    v.convert target = .ok v := by
  cases v <;> simp only [type?, Option.some.injEq, reduceCtorEq] at h <;> subst h <;>
    simp [convert, convert?, isNull, toBoolean?, toInteger?, toDouble?, display, int32?_toInt,
      int64?_toInt]

/-- A conversion gives NULL for NULL and a value of the wanted type otherwise. -/
theorem type?_of_convert {v w : Value} {target : DataType} (h : v.convert target = .ok w) :
    w.type? = if v.isNull then none else some target := by
  have hw := convert_eq_ok_iff.1 h
  unfold convert? at hw
  split at hw
  · next hv =>
    cases Option.some.inj hw
    simp [hv, type?]
  · next hv =>
    simp only [hv, Bool.false_eq_true, if_false]
    cases target <;> simp only [Option.map_eq_some_iff, Option.some.injEq] at hw
    · obtain ⟨b, _, rfl⟩ := hw; rfl
    · obtain ⟨b, _, rfl⟩ := hw; rfl
    · obtain ⟨b, _, rfl⟩ := hw; rfl
    · subst hw; rfl
    · obtain ⟨b, _, rfl⟩ := hw; rfl

theorem type?_convert {v w : Value} {target : DataType} (hv : v ≠ .null)
    (h : v.convert target = .ok w) : w.type? = some target := by
  rw [type?_of_convert h, isNull_eq_false_iff.2 hv, if_neg Bool.false_ne_true]

theorem isNull_of_convert {v w : Value} {target : DataType} (h : v.convert target = .ok w) :
    w.isNull = v.isNull := by
  cases hv : v.isNull with
  | true =>
    rw [isNull_iff.1 hv, convert_null, Except.ok.injEq] at h
    rw [← h]
    rfl
  | false =>
    exact isNull_eq_false_iff.2 (ne_null_of_type? (type?_convert (isNull_eq_false_iff.1 hv) h))

@[simp] theorem truth_ofTruth (t : Truth) : (ofTruth t).truth = .ok t := by
  cases t <;> rfl

/-- Every value but NULL is true or false, or is no truth value. -/
theorem truth_eq_unknown_iff {v : Value} : v.truth = .ok .unknown ↔ v = .null := by
  constructor
  · intro h
    unfold truth at h
    split at h
    · next hv => exact isNull_iff.1 hv
    · split at h
      · exact absurd (Except.ok.inj h) (Truth.ofBool_ne_unknown _)
      · simp at h
  · rintro rfl
    rfl

end Value

end RowPredicate
