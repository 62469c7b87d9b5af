import RowPredicate.Double.Rounding
import RowPredicate.Double.Shortest
import RowPredicate.Numeral
import RowPredicate.Text.Case

/-!
# The text of a double

* `write`: a whole number with all its digits and `.0`, any other finite number with the fewest decimals
  that read back, always without an exponent;
* `read?`: an optional sign, then a word for infinity or NaN, or digits with an optional point and an
  optional exponent, rounded correctly.
-/

namespace RowPredicate.Double

/-- Writes `n` with at least `width` digits. -/
def padded (width n : Nat) : List Char :=
  let digits := Numeral.writeNat n
  List.replicate (width - digits.length) '0' ++ digits

/-- Writes `c / 10 ^ places` with a point before the last `places` digits. -/
def writeDecimal (c places : Nat) : List Char :=
  Numeral.writeNat (c / Nat.pow 10 places) ++ '.' :: padded places (c % Nat.pow 10 places)

/-- Writes a double. The sign is kept on a negative zero and left out on a NaN. -/
def write (d : Double) : List Char :=
  if d.isNaN then "NaN".toList
  else
    let sign := if d.isNegative then ['-'] else []
    if !d.isFinite then sign ++ "inf".toList
    else if d.isIntegral then
      sign ++ Numeral.writeNat (d.units / unitsPerOne) ++ ['.', '0']
    else sign ++ writeDecimal d.decimals.1 d.decimals.2

/-- The digits of an exponent stop counting once it has reached 65536; no double is that far from
one. -/
def readExponentDigits? (s : List Char) : Option Nat :=
  if s.isEmpty || !s.all Char.isDigit then none
  else some (s.foldl (fun e c => if e < 65536 then 10 * e + (c.toNat - '0'.toNat) else e) 0)

/-- Reads the exponent at the end of a number: nothing, or `e` with an optionally signed integer. -/
def readExponent? : List Char → Option Int
  | [] => some 0
  | c :: s =>
    if c.toLower = 'e' then
      match s with
      | '-' :: r => (readExponentDigits? r).map Int.negOfNat
      | '+' :: r => (readExponentDigits? r).map Int.ofNat
      | r => (readExponentDigits? r).map Int.ofNat
    else none

/-- The digits after the point, if there is one, and the text behind them. -/
def splitDecimals : List Char → List Char × List Char
  | '.' :: r => r.span Char.isDigit
  | s => ([], s)

/-- Reads an unsigned decimal that fills the whole text: digits before or after the point, and an
exponent. -/
def readDecimal? (negative : Bool) (s : List Char) : Option Double :=
  let (whole, rest) := s.span Char.isDigit
  let (decimals, rest) := splitDecimals rest
  if whole.isEmpty && decimals.isEmpty then none
  else
    (readExponent? rest).map fun e =>
      let digits := Nat.ofDigitChars 10 (whole ++ decimals) 0
      let e : Int := e - decimals.length
      ofRatio negative (digits * Nat.pow 10 e.toNat) (Nat.pow 10 (-e).toNat)

/-- Reads what follows the sign. -/
def readUnsigned? (negative : Bool) (s : List Char) : Option Double :=
  let word := String.ofList (Text.lower s)
  if word = "inf" || word = "infinity" then some (infinity negative)
  else if word = "nan" then some (nan negative)
  else readDecimal? negative s

/-- Reads a double that fills the whole text. -/
def read? : List Char → Option Double
  | '-' :: s => readUnsigned? true s
  | '+' :: s => readUnsigned? false s
  | s => readUnsigned? false s

end RowPredicate.Double
