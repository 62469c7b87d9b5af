import RowPredicate.Double.Basic

/-!
# Shortest decimals

The decimal text of a double needs only as many decimals as it takes to read it back.

* `readsAs`: whether a decimal `c / 10 ^ places` lies in the interval of reals that round to a double;
* `shortest?`: on the grid of the given number of places, the neighbour of the double that reads back,
  the nearer of two;
* `decimals`: the first grid with such a neighbour.

Only finite doubles with a fractional part are written this way. An integer never reads back as one of
them, so the search starts at one place.
-/

namespace RowPredicate.Double

/-- Four times the magnitude in smallest steps, so that the ends of the interval are whole numbers. -/
def quarters (d : Double) : Nat :=
  4 * d.units

/-- The distance to the upper end of the interval that rounds to `d`: half a gap, in quarter steps. -/
def roomAbove (d : Double) : Nat :=
  2 <<< d.scale

/-- The distance to the lower end. Below a power of two the gap is half as wide, unless the double
stands at the smallest scale. -/
def roomBelow (d : Double) : Nat :=
  if d.fraction = 0 ∧ 1 < d.exponentField then 1 <<< d.scale else 2 <<< d.scale

/-- Whether `c / 10 ^ places` rounds to the magnitude of `d`. The ends of the interval belong to an
even significand. -/
def readsAs (d : Double) (places c : Nat) : Bool :=
  let point := c * (4 * unitsPerOne)
  let low := (d.quarters - d.roomBelow) * Nat.pow 10 places
  let high := (d.quarters + d.roomAbove) * Nat.pow 10 places
  if d.significand % 2 = 0 then low ≤ point && point ≤ high else low < point && point < high

/-- The neighbour of `d` with the given number of places that reads back as `d`. Of two, the nearer
one, and at the same distance the upper one. -/
def shortest? (d : Double) (places : Nat) : Option Nat :=
  let target := d.quarters * Nat.pow 10 places
  let below := target / (4 * unitsPerOne)
  let gap := target % (4 * unitsPerOne)
  match d.readsAs places below, d.readsAs places (below + 1) with
  | true, true => some (if 2 * gap < 4 * unitsPerOne then below else below + 1)
  | true, false => some below
  | false, true => some (below + 1)
  | false, false => none

/-- Tries `places`, `places + 1`, … and gives the first decimal that reads back, with its places. -/
def search (d : Double) : Nat → Nat → Nat × Nat
  | 0, places => (d.quarters * Nat.pow 10 places / (4 * unitsPerOne), places)
  | fuel + 1, places =>
    match d.shortest? places with
    | some c => (c, places)
    | none => search d fuel (places + 1)

/-- The shortest decimal of a finite double with a fractional part: `c / 10 ^ places`. With 1074
places every finite double is a decimal itself, so the search ends there at the latest. -/
def decimals (d : Double) : Nat × Nat :=
  search d 1073 1

/-- A decimal that the grid offers reads back. -/
theorem readsAs_of_shortest? {d : Double} {places c : Nat} (h : d.shortest? places = some c) :
    d.readsAs places c = true := by
  unfold shortest? at h
  dsimp only at h
  split at h <;> simp only [Option.some.injEq, reduceCtorEq] at h
  · subst h
    split <;> assumption
  · subst h; assumption
  · subst h; assumption

end RowPredicate.Double
