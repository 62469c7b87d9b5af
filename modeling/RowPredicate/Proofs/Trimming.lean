import RowPredicate.Text.Blank

/-!
# Trimming

* `Trims`: a text without the blanks at its two ends, said without the function that removes them;
* `trim_eq_iff`: trimming finds it, and nothing else.
-/

namespace RowPredicate.Text

/-- `core` is what remains of `s` without the blanks at its two ends. -/
structure Trims (s core : List Char) : Prop where
  around : ∃ a b, s = a ++ core ++ b ∧ (∀ c ∈ a, isBlank c = true) ∧ ∀ c ∈ b, isBlank c = true
  first : ∀ c, core.head? = some c → isBlank c = false
  last : ∀ c, core.getLast? = some c → isBlank c = false

variable {s core : List Char}

theorem head?_dropWhile_blank {c : Char} (h : (s.dropWhile isBlank).head? = some c) :
    isBlank c = false := by
  have := List.head?_dropWhile_not isBlank s
  rw [h] at this
  exact this

theorem exists_append_trimRight (s : List Char) :
    ∃ b, s = trimRight s ++ b ∧ ∀ c ∈ b, isBlank c = true := by
  refine ⟨(s.reverse.takeWhile isBlank).reverse, ?_, fun c hc => ?_⟩
  · rw [trimRight, ← List.reverse_append, List.takeWhile_append_dropWhile, List.reverse_reverse]
  · exact List.all_eq_true.1 List.all_takeWhile c (List.mem_reverse.1 hc)

theorem trims_trim (s : List Char) : Trims s (trim s) := by
  obtain ⟨b, hb, hblank⟩ := exists_append_trimRight (s.dropWhile isBlank)
  refine ⟨⟨s.takeWhile isBlank, b, ?_, fun c hc => ?_, hblank⟩, fun c hc => ?_, fun c hc => ?_⟩
  · rw [List.append_assoc, trim, ← hb, List.takeWhile_append_dropWhile]
  · exact List.all_eq_true.1 List.all_takeWhile c hc
  · apply head?_dropWhile_blank
    rw [hb, List.head?_append, ← trim, hc]
    rfl
  · rw [trim, trimRight, List.getLast?_reverse] at hc
    exact head?_dropWhile_blank hc

theorem Trims.trim_eq (h : Trims s core) : trim s = core := by
  obtain ⟨⟨a, b, rfl, ha, hb⟩, hfirst, hlast⟩ := h
  exact trim_append_of_ends ha hb hfirst hlast

/-- Trimming takes away the blanks at both ends, all of them and nothing else. -/
theorem trim_eq_iff : trim s = core ↔ Trims s core := by
  constructor
  · rintro rfl
    exact trims_trim s
  · exact Trims.trim_eq

end RowPredicate.Text
