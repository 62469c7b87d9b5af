import Mathlib.Data.List.TakeWhile
import RowPredicate.Proofs.Trimming
import RowPredicate.Settings

/-!
# The segments of a settings text

What a text of assignments consists of, said without the functions that take it apart.

* `Separated`: the parts of a text between its semicolons, and `Kept`: those that are not blank, trimmed;
* `segments_eq_iff`: the segments of a text are the kept ones of its parts;
* `Sides`: what stands before and behind the first equals sign of a segment, and `keyValue?_eq_some_iff`,
  `keyValue?_eq_none_iff`: this is found, unless the segment has none.
-/

namespace RowPredicate

namespace Settings

/-! ## Between semicolons -/

/-- The parts of a text between its semicolons. -/
structure Separated (text : List Char) (parts : List (List Char)) : Prop where
  ne_nil : parts ≠ []
  joined : [';'].intercalate parts = text
  apart : ∀ part ∈ parts, ';' ∉ part

/-- The parts that are not blank, trimmed. -/
inductive Kept : List (List Char) → List (List Char) → Prop where
  | nil : Kept [] []
  | blank {part : List Char} {parts segs : List (List Char)} (h : Text.Trims part [])
      (rest : Kept parts segs) : Kept (part :: parts) segs
  | segment {part seg : List Char} {parts segs : List (List Char)} (h : Text.Trims part seg)
      (hne : seg ≠ []) (rest : Kept parts segs) : Kept (part :: parts) (seg :: segs)

/-- The segments of a text. -/
def Segmented (text : List Char) (segs : List (List Char)) : Prop :=
  ∃ parts, Separated text parts ∧ Kept parts segs

variable {text seg : List Char} {parts segs : List (List Char)}

/-- A separator does not stand within what it separates. -/
theorem not_mem_of_mem_splitOn {sep : Char} {part : List Char} (h : part ∈ text.splitOn sep) :
    sep ∉ part := by
  induction text generalizing part with
  | nil =>
    rw [List.splitOn_nil, List.mem_singleton] at h
    simp [h]
  | cons c r ih =>
    obtain ⟨p, ps, hr⟩ := List.exists_cons_of_ne_nil (List.splitOnP_ne_nil (· == sep) r)
    rw [List.splitOn, hr] at ih
    rw [List.splitOn, List.splitOnP_cons_eq_if_modifyHead, hr] at h
    by_cases hc : c = sep
    · rw [if_pos (by simp [hc])] at h
      rcases List.mem_cons.1 h with rfl | h
      · simp
      · exact ih h
    · rw [if_neg (by simp [hc]), List.modifyHead_cons] at h
      rcases List.mem_cons.1 h with rfl | h
      · have hp := ih List.mem_cons_self
        simp [hp, Ne.symm hc]
      · exact ih (List.mem_cons_of_mem _ h)

theorem splitOn_eq_iff : text.splitOn ';' = parts ↔ Separated text parts := by
  constructor
  · rintro rfl
    exact ⟨List.splitOnP_ne_nil _ _, List.intercalate_splitOn ';', fun _ => not_mem_of_mem_splitOn⟩
  · rintro ⟨hne, rfl, hapart⟩
    exact List.splitOn_intercalate ';' hapart hne

theorem kept_iff : (parts.map Text.trim).filter (fun s => !s.isEmpty) = segs ↔ Kept parts segs := by
  induction parts generalizing segs with
  | nil =>
    constructor
    · rintro rfl
      exact .nil
    · rintro ⟨⟩
      rfl
  | cons part parts ih =>
    have htrims := Text.trims_trim part
    rw [List.map_cons]
    by_cases hne : Text.trim part = []
    · rw [List.filter_cons_of_neg (by simp [hne]), ih]
      constructor
      · exact .blank (hne ▸ htrims)
      · intro h
        cases h with
        | blank _ rest => exact rest
        | segment h hseg _ => exact absurd (h.trim_eq.symm.trans hne) hseg
    · rw [List.filter_cons_of_pos (by simpa using hne)]
      constructor
      · rintro rfl
        exact .segment htrims hne (ih.1 rfl)
      · intro h
        cases h with
        | blank h _ => exact absurd h.trim_eq hne
        | segment h _ rest => rw [h.trim_eq, ih.2 rest]

theorem segments_eq_iff {text : String} : segments text = segs ↔ Segmented text.toList segs := by
  rw [segments, kept_iff]
  constructor
  · intro h
    exact ⟨_, splitOn_eq_iff.1 rfl, h⟩
  · rintro ⟨parts, hparts, h⟩
    rwa [splitOn_eq_iff.2 hparts]

/-! ## Around the equals sign -/

/-- A key and a value: the trimmed sides of the first equals sign of a segment. -/
def Sides (seg : List Char) (key value : String) : Prop :=
  ∃ left right, seg = left ++ '=' :: right ∧ '=' ∉ left ∧ Text.Trims left key.toList ∧
    Text.Trims right value.toList

theorem keyValue?_eq_some_iff {key value : String} :
    keyValue? seg = some (key, value) ↔ Sides seg key value := by
  unfold keyValue?
  constructor
  · intro h
    have hsplit : seg.takeWhile (· != '=') ++ seg.dropWhile (· != '=') = seg :=
      List.takeWhile_append_dropWhile
    have hhead := List.head?_dropWhile_not (· != '=') seg
    split at h
    · simp at h
    · next c right hright =>
      rw [hright] at hsplit hhead
      obtain rfl : c = '=' := by simpa using hhead
      obtain ⟨rfl, rfl⟩ := Prod.mk.inj (Option.some.inj h)
      refine ⟨_, right, hsplit.symm, fun hmem => ?_, ?_, ?_⟩
      · have := List.all_eq_true.1 List.all_takeWhile _ hmem
        simp at this
      · rw [String.toList_ofList]
        exact Text.trims_trim _
      · rw [String.toList_ofList]
        exact Text.trims_trim _
  · rintro ⟨left, right, rfl, hleft, hkey, hvalue⟩
    have hne : ∀ c ∈ left, (c != '=') = true := fun c hc => by
      rw [bne_iff_ne]
      rintro rfl
      exact hleft hc
    rw [List.takeWhile_append_of_pos hne, List.dropWhile_append_of_pos hne]
    simp [hkey.trim_eq, hvalue.trim_eq]

theorem keyValue?_eq_none_iff : keyValue? seg = none ↔ '=' ∉ seg := by
  have hnil : seg.dropWhile (· != '=') = [] ↔ '=' ∉ seg := by
    rw [List.dropWhile_eq_nil_iff]
    constructor
    · intro h hmem
      simpa using h _ hmem
    · intro h c hc
      rw [bne_iff_ne]
      rintro rfl
      exact h hc
  rw [← hnil]
  unfold keyValue?
  cases seg.dropWhile (· != '=') <;> simp

end Settings

end RowPredicate
