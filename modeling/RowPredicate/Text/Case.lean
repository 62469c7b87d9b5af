/-!
# Letter case

Names and words are matched without regard to the case of the letters A to Z; every other
character stands only for itself.
-/

namespace RowPredicate.Text

/-- Maps A to Z to a to z and leaves every other character alone. -/
def lower (s : List Char) : List Char :=
  s.map Char.toLower

/-- Two texts are the same word when they differ at most in the case of A to Z. -/
def sameWord (a b : String) : Bool :=
  lower a.toList == lower b.toList

theorem sameWord_iff {a b : String} :
    sameWord a b = true ↔ lower a.toList = lower b.toList := by
  simp [sameWord]

end RowPredicate.Text
