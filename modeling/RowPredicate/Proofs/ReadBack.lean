import RowPredicate.Value

/-!
# Reading back what was written

* `Text.decode_eq_some_iff`: the texts from which a literal is read are the written literals, each followed
  by a text that does not go on with a quote;
* `Value.decode_eq_some_iff_sql`: so a text that is written into SQL is read back from there, and the reader
  stops right behind it.
-/

namespace RowPredicate

namespace Text

variable {u s t : List Char}

@[simp] theorem encode_quote (r : List Char) : encode (quote :: r) = quote :: quote :: encode r :=
  if_pos rfl

theorem encode_of_ne {c : Char} (h : c ≠ quote) (r : List Char) : encode (c :: r) = c :: encode r :=
  if_neg h

/-- What was read stands before its closing quote as it would be written. -/
theorem eq_encode_of_decodeBody (h : decodeBody u = some (s, t)) :
    u = encode s ++ quote :: t ∧ t.head? ≠ some quote := by
  fun_induction decodeBody u generalizing s with
  | case1 => simp at h
  | case2 =>
    cases h
    exact ⟨rfl, by simp⟩
  | case3 => simp at h
  | case4 r ih =>
    obtain ⟨⟨s', t'⟩, hr, hs⟩ := Option.map_eq_some_iff.1 h
    cases hs
    obtain ⟨rfl, ht⟩ := ih hr
    exact ⟨by rw [encode_quote]; rfl, ht⟩
  | case5 d r hd =>
    cases h
    exact ⟨rfl, by simpa using hd⟩
  | case6 c d r hc ih =>
    obtain ⟨⟨s', t'⟩, hr, hs⟩ := Option.map_eq_some_iff.1 h
    cases hs
    obtain ⟨hbody, ht⟩ := ih hr
    exact ⟨by rw [hbody, encode_of_ne hc]; rfl, ht⟩

/-- A literal is read where one was written, as long as no further quote follows it, and nowhere else. -/
theorem decode_eq_some_iff : decode u = some (s, t) ↔ u = quoted s ++ t ∧ t.head? ≠ some quote := by
  constructor
  · intro h
    cases u with
    | nil => simp [decode] at h
    | cons c r =>
      by_cases hc : c = quote
      · rw [decode, if_pos hc] at h
        obtain ⟨hbody, ht⟩ := eq_encode_of_decodeBody h
        refine ⟨?_, ht⟩
        rw [hc, hbody, quoted, List.cons_append, List.cons_append, List.append_assoc,
          List.singleton_append]
      · simp [decode, hc] at h
  · rintro ⟨rfl, ht⟩
    exact decode_quoted s t ht

end Text

/-- Reading a literal from the front of a text gives `s` and leaves `t` exactly if the text is `s` as an SQL
literal with `t` behind it, and `t` does not begin with a quote. So every text comes back from SQL, whatever
quotes it holds, and no text runs out of its literal. -/
theorem Value.decode_eq_some_iff_sql (u s t : String) :
    Text.decode u.toList = some (s.toList, t.toList) ↔
      u = (Value.varchar s).sql ++ t ∧ t.toList.head? ≠ some Text.quote := by
  rw [Text.decode_eq_some_iff, ← String.toList_inj, String.toList_append, Value.sql,
    String.toList_ofList]

/-- Quotes at both ends, one of them right before the closing quote. -/
example : Text.decode "'''it''s''', 'x'".toList = some ("'it's'".toList, ", 'x'".toList) := by decide

end RowPredicate
