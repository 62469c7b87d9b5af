/-!
# Decimal numerals

* `write`: the shortest decimal numeral of an integer, with a minus sign before a negative one;
* `read?`: an optional sign and at least one of the digits 0 to 9, leading zeros allowed;
* `read?_write`: reading a written integer gives it back.
-/

namespace RowPredicate.Numeral

/-- Writes a natural number in decimal. -/
def writeNat (n : Nat) : List Char :=
  Nat.toDigits 10 n

/-- Writes an integer in decimal. -/
def write (i : Int) : List Char :=
  if i < 0 then '-' :: writeNat i.natAbs else writeNat i.natAbs

/-- Reads a nonempty run of digits that fills the whole text. -/
def readNat? (s : List Char) : Option Nat :=
  if s.isEmpty || !s.all Char.isDigit then none else some (Nat.ofDigitChars 10 s 0)

/-- Reads an integer that fills the whole text. -/
def read? : List Char → Option Int
  | '-' :: s => (readNat? s).map Int.negOfNat
  | '+' :: s => (readNat? s).map Int.ofNat
  | s => (readNat? s).map Int.ofNat

theorem writeNat_ne_nil (n : Nat) : writeNat n ≠ [] := by
  simp [writeNat]

theorem isDigit_of_mem_writeNat {c : Char} {n : Nat} (h : c ∈ writeNat n) : c.isDigit = true :=
  Nat.isDigit_of_mem_toDigits (by decide) (by decide) h

theorem readNat?_writeNat (n : Nat) : readNat? (writeNat n) = some n := by
  have hall : ∀ c ∈ writeNat n, c.isDigit = true := fun c hc => isDigit_of_mem_writeNat hc
  have hread : Nat.ofDigitChars 10 (writeNat n) 0 = n :=
    Nat.ofDigitChars_toDigits (by decide) (by decide)
  simpa [readNat?, writeNat_ne_nil, hread] using hall

/-- A run of digits is read without looking for a sign. -/
theorem read?_of_forall_isDigit {s : List Char} (hs : ∀ c ∈ s, c.isDigit = true) :
    read? s = (readNat? s).map Int.ofNat := by
  unfold read?
  split
  · exact absurd (hs '-' (by simp)) (by decide)
  · exact absurd (hs '+' (by simp)) (by decide)
  · rfl

theorem read?_write (i : Int) : read? (write i) = some i := by
  by_cases hi : i < 0
  · have : Int.negOfNat i.natAbs = i := by rw [Int.negOfNat_eq, Int.ofNat_eq_natCast]; omega
    simp [write, hi, read?, readNat?_writeNat, this]
  · have : Int.ofNat i.natAbs = i := by rw [Int.ofNat_eq_natCast]; omega
    rw [write, if_neg hi, read?_of_forall_isDigit fun c hc => isDigit_of_mem_writeNat hc,
      readNat?_writeNat, Option.map_some, this]

end RowPredicate.Numeral
