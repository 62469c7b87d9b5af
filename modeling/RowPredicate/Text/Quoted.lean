/-!
# Quoted text

A string literal stands between two single quotes, and a quote inside it is written twice.

* `encode` writes the body of a literal, `quoted` the whole literal;
* `decode` reads one literal from the front of a text and returns the text after it;
* `decode_quoted`: what was written is read back, and the reader stops right behind the literal.
-/

namespace RowPredicate.Text

/-- The character that opens and closes a literal. -/
def quote : Char := '\''

/-- Writes each quote twice and every other character once. -/
def encode : List Char → List Char
  | [] => []
  | c :: r => if c = quote then quote :: quote :: encode r else c :: encode r

/-- A text as a literal. -/
def quoted (s : List Char) : List Char :=
  quote :: encode s ++ [quote]

/-- Reads the body of a literal up to the first quote that no second quote follows; gives the body
and the text behind that quote. -/
def decodeBody : List Char → Option (List Char × List Char)
  | [] => none
  | [c] => if c = quote then some ([], []) else none
  | c :: d :: r =>
    if c = quote then
      if d = quote then (decodeBody r).map fun p => (quote :: p.1, p.2) else some ([], d :: r)
    else (decodeBody (d :: r)).map fun p => (c :: p.1, p.2)

/-- Reads one literal from the front of a text. -/
def decode : List Char → Option (List Char × List Char)
  | [] => none
  | c :: r => if c = quote then decodeBody r else none

theorem decodeBody_encode (s t : List Char) (ht : t.head? ≠ some quote) :
    decodeBody (encode s ++ quote :: t) = some (s, t) := by
  induction s with
  | nil =>
    cases t with
    | nil => simp [encode, decodeBody]
    | cons c r =>
      have hc : c ≠ quote := by simpa using ht
      simp [encode, decodeBody, hc]
  | cons c r ih =>
    by_cases hc : c = quote
    · subst hc
      simp [encode, decodeBody, ih]
    · cases r with
      | nil =>
        have ih' : decodeBody (quote :: t) = some ([], t) := by simpa [encode] using ih
        simp [encode, decodeBody, hc, ih']
      | cons d r' =>
        have hne : ∃ x y, encode (d :: r') ++ quote :: t = x :: y := by
          by_cases hd : d = quote <;> simp [encode, hd]
        obtain ⟨x, y, hxy⟩ := hne
        have : encode (c :: d :: r') = c :: encode (d :: r') := by simp [encode, hc]
        rw [this, List.cons_append, hxy]
        rw [hxy] at ih
        simp [decodeBody, hc, ih]

/-- A literal ends where it was closed, whatever follows, as long as no further quote does. -/
theorem decode_quoted (s t : List Char) (ht : t.head? ≠ some quote) :
    decode (quoted s ++ t) = some (s, t) := by
  simp [quoted, decode, decodeBody_encode s t ht]

end RowPredicate.Text
