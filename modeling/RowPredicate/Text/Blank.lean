/-!
# Blank characters

* `isBlank`: the 25 characters with the Unicode property `White_Space`;
* `trim`: a text without the blanks at its two ends;
* `trim_append_of_ends`: trimming removes the blanks around a text that has none at its ends;
* `trim_append_blank`: around a text without blanks it removes all that were added.
-/

namespace RowPredicate.Text

/-- The ranges of the Unicode property `White_Space`, each with its first and last code point. -/
def blankRanges : List (Nat × Nat) :=
  [(0x09, 0x0D), (0x20, 0x20), (0x85, 0x85), (0xA0, 0xA0), (0x1680, 0x1680), (0x2000, 0x200A),
   (0x2028, 0x2029), (0x202F, 0x202F), (0x205F, 0x205F), (0x3000, 0x3000)]

def isBlank (c : Char) : Bool :=
  blankRanges.any fun r => r.1 ≤ c.toNat && c.toNat ≤ r.2

/-- Drops the blanks at the end of a text. -/
def trimRight (s : List Char) : List Char :=
  (s.reverse.dropWhile isBlank).reverse

/-- Drops the blanks at both ends of a text. -/
def trim (s : List Char) : List Char :=
  trimRight (s.dropWhile isBlank)

theorem not_blank_of_isDigit {c : Char} (h : c.isDigit = true) : isBlank c = false := by
  have hdigit : 48 ≤ c.toNat ∧ c.toNat ≤ 57 := Char.isDigit_iff_toNat.1 h
  simp [isBlank, blankRanges]
  omega

/-- A blank has no letter case. -/
theorem toLower_of_blank {c : Char} (h : isBlank c = true) : c.toLower = c := by
  apply dif_neg
  rintro ⟨hA, hZ⟩
  have hletter : 65 ≤ c.toNat ∧ c.toNat ≤ 90 := ⟨hA, hZ⟩
  simp [isBlank, blankRanges] at h
  omega

theorem dropWhile_blank_append {b s : List Char} (hb : ∀ c ∈ b, isBlank c = true) :
    (b ++ s).dropWhile isBlank = s.dropWhile isBlank := by
  induction b with
  | nil => rfl
  | cons c r ih =>
    have hc := hb c (by simp)
    simp [hc, ih fun x hx => hb x (by simp [hx])]

theorem dropWhile_blank_of_first {s : List Char} (h : ∀ c, s.head? = some c → isBlank c = false) :
    s.dropWhile isBlank = s := by
  cases s with
  | nil => rfl
  | cons c r => rw [List.dropWhile_cons_of_neg (by simp [h c rfl])]

theorem trimRight_append_blank {s b : List Char} (hb : ∀ c ∈ b, isBlank c = true) :
    trimRight (s ++ b) = trimRight s := by
  have hr : ∀ c ∈ b.reverse, isBlank c = true := fun c hc => hb c (by simpa using hc)
  simp [trimRight, dropWhile_blank_append hr]

theorem trimRight_of_last {s : List Char} (h : ∀ c, s.getLast? = some c → isBlank c = false) :
    trimRight s = s := by
  have hend : s.reverse.dropWhile isBlank = s.reverse := by
    apply dropWhile_blank_of_first
    rwa [List.head?_reverse]
  rw [trimRight, hend, List.reverse_reverse]

/-- Blanks written around a text are what trimming takes away, if the text has none at its ends. -/
theorem trim_append_of_ends {a s b : List Char} (ha : ∀ c ∈ a, isBlank c = true)
    (hb : ∀ c ∈ b, isBlank c = true) (hfirst : ∀ c, s.head? = some c → isBlank c = false)
    (hlast : ∀ c, s.getLast? = some c → isBlank c = false) : trim (a ++ s ++ b) = s := by
  rw [trim, List.append_assoc, dropWhile_blank_append ha]
  cases s with
  | nil =>
    have hall : b.dropWhile isBlank = [] := by
      have := dropWhile_blank_append (s := []) hb
      rwa [List.append_nil] at this
    rw [List.nil_append, hall]
    rfl
  | cons c r =>
    have hstart : (c :: r ++ b).dropWhile isBlank = c :: r ++ b := dropWhile_blank_of_first hfirst
    rw [hstart, trimRight_append_blank hb, trimRight_of_last hlast]

/-- Blanks written around a text without blanks are what trimming takes away. -/
theorem trim_append_blank {a s b : List Char} (ha : ∀ c ∈ a, isBlank c = true)
    (hs : ∀ c ∈ s, isBlank c = false) (hb : ∀ c ∈ b, isBlank c = true) :
    trim (a ++ s ++ b) = s :=
  trim_append_of_ends ha hb (fun c hc => hs c (List.mem_of_head? hc))
    fun c hc => hs c (List.mem_of_getLast? hc)

end RowPredicate.Text
