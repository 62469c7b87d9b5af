import Mathlib.Data.Nat.Digits.Defs
import RowPredicate.Proofs.Trimming
import RowPredicate.Value.Conversion

/-!
# Conversion from text

A text is converted to a boolean or an integer if it is a word or a numeral for it, with any blanks around.

* `Numeral.Denotes`: the integer of a numeral, by the places of its digits, and `Numeral.read?_eq_some_iff`:
  numerals are what is read, each as its integer;
* `Value.Spells`: the words and numerals for a value;
* `convert_varchar_eq_ok_iff`: a text is converted to the values that it spells, and to no others;
* `convert_varchar_restores`: the text of a boolean or an integer spells it, so it is converted back.
-/

namespace RowPredicate

namespace Numeral

variable {s : List Char} {n : Nat} {i : Int}

/-- A run of digits fills the text. -/
structure IsRun (s : List Char) : Prop where
  ne_nil : s ≠ []
  digits : ∀ c ∈ s, c.isDigit = true

/-- What a run of digits amounts to: each digit counts ten times what it would one place further right. -/
def placeValue (s : List Char) : Nat :=
  Nat.ofDigits 10 (s.map fun c => c.toNat - '0'.toNat).reverse

/-- The integer of a numeral: a run of digits with at most one sign before it. -/
inductive Denotes : List Char → Int → Prop where
  | unsigned {s : List Char} (h : IsRun s) : Denotes s (placeValue s)
  | plus {s : List Char} (h : IsRun s) : Denotes ('+' :: s) (placeValue s)
  | minus {s : List Char} (h : IsRun s) : Denotes ('-' :: s) (-placeValue s)

theorem ofDigitChars_eq_placeValue (s : List Char) : Nat.ofDigitChars 10 s 0 = placeValue s := by
  induction s with
  | nil => rfl
  | cons c r ih =>
    rw [Nat.ofDigitChars_cons, Nat.ofDigitChars_eq_ofDigitChars_zero, ih, placeValue, placeValue,
      List.map_cons, List.reverse_cons, Nat.ofDigits_append, Nat.ofDigits_singleton,
      List.length_reverse, List.length_map, Nat.mul_zero, Nat.zero_add, Nat.add_comm]

theorem readNat?_eq_some_iff : readNat? s = some n ↔ IsRun s ∧ placeValue s = n := by
  rw [← ofDigitChars_eq_placeValue]
  unfold readNat?
  split
  · next h =>
    simp only [reduceCtorEq, false_iff]
    rintro ⟨⟨hne, hdigits⟩, -⟩
    simp [hne, List.all_eq_true.2 hdigits] at h
  · next h =>
    simp only [Bool.or_eq_true, List.isEmpty_iff, Bool.not_eq_true', not_or, Bool.not_eq_false] at h
    have hrun : IsRun s := ⟨h.1, List.all_eq_true.1 h.2⟩
    simp [hrun]

/-- Numerals are read, each as the integer that it denotes, and nothing else is. -/
theorem read?_eq_some_iff : read? s = some i ↔ Denotes s i := by
  constructor
  · intro h
    unfold read? at h
    split at h <;> obtain ⟨n, hn, rfl⟩ := Option.map_eq_some_iff.1 h <;>
      obtain ⟨hrun, rfl⟩ := readNat?_eq_some_iff.1 hn
    · rw [Int.negOfNat_eq]
      exact .minus hrun
    · exact .plus hrun
    · exact .unsigned hrun
  · intro h
    cases h with
    | unsigned h => rw [read?_of_forall_isDigit h.digits, readNat?_eq_some_iff.2 ⟨h, rfl⟩]; rfl
    | plus h => rw [read?, readNat?_eq_some_iff.2 ⟨h, rfl⟩]; rfl
    | minus h => rw [read?, readNat?_eq_some_iff.2 ⟨h, rfl⟩, Option.map_some, Int.negOfNat_eq]; rfl

theorem IsRun.not_blank (h : IsRun s) : ∀ c ∈ s, Text.isBlank c = false := fun c hc =>
  Text.not_blank_of_isDigit (h.digits c hc)

theorem Denotes.not_blank (h : Denotes s i) : ∀ c ∈ s, Text.isBlank c = false := by
  cases h with
  | unsigned h => exact h.not_blank
  | plus h => exact List.forall_mem_cons.2 ⟨by decide, h.not_blank⟩
  | minus h => exact List.forall_mem_cons.2 ⟨by decide, h.not_blank⟩

end Numeral

namespace Value

variable {s : List Char} {u : String} {v w : Value} {t : DataType}

/-- The words and numerals for a boolean or an integer. -/
inductive Spells : List Char → Value → Prop where
  | word {s : List Char} {b : Bool} (h : (Text.lower s, b) ∈ booleanWords) : Spells s (.boolean b)
  | int {s : List Char} {i : Int32} (h : Numeral.Denotes s i.toInt) : Spells s (.int i)
  | bigint {s : List Char} {i : Int64} (h : Numeral.Denotes s i.toInt) : Spells s (.bigint i)

theorem Spells.not_blank (h : Spells s v) : ∀ c ∈ s, Text.isBlank c = false := by
  cases h with
  | word h =>
    intro c hc
    have hwords : ∀ entry ∈ booleanWords, entry.1.any Text.isBlank = false := by decide
    have hlower := List.any_eq_false.1 (hwords _ h) c.toLower (List.mem_map_of_mem hc)
    -- A blank would be its own lower case, and so stand in the word of the table too.
    cases hblank : Text.isBlank c with
    | false => rfl
    | true =>
      rw [Text.toLower_of_blank hblank] at hlower
      exact absurd hblank hlower
  | int h => exact h.not_blank
  | bigint h => exact h.not_blank

theorem readBoolean?_eq_some_iff {b : Bool} :
    readBoolean? s = some b ↔ (Text.lower (Text.trim s), b) ∈ booleanWords := by
  unfold readBoolean?
  constructor
  · intro h
    obtain ⟨front, back, hwords, -⟩ := List.lookup_eq_some_iff.1 h
    simp [hwords]
  · intro h
    have hwords : ∀ entry ∈ booleanWords, booleanWords.lookup entry.1 = some entry.2 := by decide
    exact hwords _ h

/-- A text is converted to a boolean or an integer exactly if it spells that value, blanks at its two ends
aside. An integer that the type does not contain has no such value. -/
theorem convert_varchar_eq_ok_iff (ht : t = .boolean ∨ t = .int ∨ t = .bigint) :
    (Value.varchar u).convert t = .ok w ↔
      w.type? = some t ∧ ∃ core, Text.Trims u.toList core ∧ Spells core w := by
  simp only [← Text.trim_eq_iff, exists_eq_left']
  rw [convert_eq_ok_iff, convert?_of_ne_null (by simp)]
  rcases ht with rfl | rfl | rfl
  · simp only [toBoolean?, Option.map_eq_some_iff, readBoolean?_eq_some_iff]
    constructor
    · rintro ⟨b, hb, rfl⟩
      exact ⟨rfl, .word hb⟩
    · rintro ⟨htype, hspells⟩
      cases hspells with
      | word h => exact ⟨_, h, rfl⟩
      | int | bigint => simp [type?] at htype
  · simp only [toInteger?, Option.map_eq_some_iff, Option.bind_eq_some_iff, int32?_eq_some_iff,
      Numeral.read?_eq_some_iff]
    constructor
    · rintro ⟨i, ⟨n, hn, rfl⟩, rfl⟩
      exact ⟨rfl, .int hn⟩
    · rintro ⟨htype, hspells⟩
      cases hspells with
      | int h => exact ⟨_, ⟨_, h, rfl⟩, rfl⟩
      | word | bigint => simp [type?] at htype
  · simp only [toInteger?, Option.map_eq_some_iff, Option.bind_eq_some_iff, int64?_eq_some_iff,
      Numeral.read?_eq_some_iff]
    constructor
    · rintro ⟨i, ⟨n, hn, rfl⟩, rfl⟩
      exact ⟨rfl, .bigint hn⟩
    · rintro ⟨htype, hspells⟩
      cases hspells with
      | bigint h => exact ⟨_, ⟨_, h, rfl⟩, rfl⟩
      | word | int => simp [type?] at htype

/-- A plus sign and leading zeros are read, although they are never written. -/
example : (Value.varchar " +007").convert .int = .ok (.int 7) := rfl

/-- Blanks around a word or numeral do not keep it from being converted. -/
theorem convert_of_spells (ht : t = .boolean ∨ t = .int ∨ t = .bigint) (hv : v.type? = some t)
    {s a b : String} (h : Spells s.toList v) (ha : ∀ c ∈ a.toList, Text.isBlank c = true)
    (hb : ∀ c ∈ b.toList, Text.isBlank c = true) :
    (Value.varchar (a ++ s ++ b)).convert t = .ok v := by
  refine (convert_varchar_eq_ok_iff ht).2 ⟨hv, s.toList, ?_, h⟩
  rw [← Text.trim_eq_iff, String.toList_append, String.toList_append]
  exact Text.trim_append_blank ha h.not_blank hb

theorem convert_varchar_of_ne_null (hv : v ≠ .null) :
    v.convert .varchar = .ok (.varchar v.display) := by
  rw [convert_eq_ok_iff, convert?_of_ne_null hv]

theorem spells_display (ht : t = .boolean ∨ t = .int ∨ t = .bigint) (hv : v.type? = some t) :
    Spells v.display.toList v := by
  cases v with
  | boolean b => cases b <;> exact .word (by decide)
  | int i =>
    rw [display, String.toList_ofList]
    exact .int (Numeral.read?_eq_some_iff.1 (Numeral.read?_write _))
  | bigint i =>
    rw [display, String.toList_ofList]
    exact .bigint (Numeral.read?_eq_some_iff.1 (Numeral.read?_write _))
  | null | double | varchar => rcases ht with rfl | rfl | rfl <;> simp [type?] at hv

/-- Nothing is lost when a boolean or an integer is converted to text: the text is a word or a numeral for the
value, and it is converted back to it, whatever blanks are added on both sides, if any. -/
theorem convert_varchar_restores (ht : t = .boolean ∨ t = .int ∨ t = .bigint) (hv : v.type? = some t) :
    ∃ s, v.convert .varchar = .ok (.varchar s) ∧ Spells s.toList v ∧
      ∀ a b : String, (∀ c ∈ a.toList, Text.isBlank c = true) →
        (∀ c ∈ b.toList, Text.isBlank c = true) →
        (Value.varchar (a ++ s ++ b)).convert t = .ok v := by
  have hspells := spells_display ht hv
  exact ⟨v.display, convert_varchar_of_ne_null (ne_null_of_type? hv), hspells, fun _ _ =>
    convert_of_spells ht hv hspells⟩

/-- The lowest 64-bit integer, whose absolute value does not fit, between a tab and a no-break space. -/
theorem convert_varchar_restores_lowest :
    (Value.bigint (-0x8000000000000000)).convert .varchar = .ok (.varchar "-9223372036854775808") ∧
    (Value.varchar ("\t" ++ "-9223372036854775808" ++ "\u00a0")).convert .bigint =
      .ok (.bigint (-0x8000000000000000)) := by
  have htext : (Value.bigint (-0x8000000000000000)).convert .varchar =
      .ok (.varchar "-9223372036854775808") := by
    rw [convert_eq_ok_iff]
    decide
  obtain ⟨s, hs, -, hback⟩ :=
    convert_varchar_restores (v := .bigint (-0x8000000000000000)) (.inr (.inr rfl)) rfl
  cases htext.symm.trans hs
  exact ⟨htext, hback _ _ (List.all_eq_true.1 (by decide)) (List.all_eq_true.1 (by decide))⟩

end Value

end RowPredicate
