/-!
# Truth values and connectives

A condition over a row with NULLs is true, false or unknown.

* `Truth` with `Truth.not` and `Connective.apply`: the three-valued tables of NOT, AND and OR;
* `Connective.decisive`: the truth value that settles a connective whatever stands beside it
  (`apply_decisive_left`, `apply_decisive_right`);
* `applyInOrder`: a connective whose sides may fail, of which the right one is looked at last;
* `not_apply`, `map_not_applyInOrder`: negation turns a connective into its `flip` over the negated
  sides.
-/

namespace RowPredicate

/-- The truth of a condition on one row. -/
inductive Truth where
  | no
  | unknown
  | yes
  deriving DecidableEq, Repr

namespace Truth

def ofBool : Bool → Truth
  | true => .yes
  | false => .no

def not : Truth → Truth
  | .no => .yes
  | .unknown => .unknown
  | .yes => .no

/-- A row is selected only where its condition is known to hold. -/
def holds : Truth → Bool
  | .yes => true
  | _ => false

@[simp] theorem not_not (t : Truth) : t.not.not = t := by cases t <;> rfl

@[simp] theorem not_ofBool (b : Bool) : (ofBool b).not = ofBool (!b) := by cases b <;> rfl

@[simp] theorem ofBool_inj {a b : Bool} : ofBool a = ofBool b ↔ a = b := by
  cases a <;> cases b <;> decide

@[simp] theorem ofBool_ne_unknown (b : Bool) : ofBool b ≠ .unknown := by cases b <;> decide

theorem holds_iff {t : Truth} : t.holds = true ↔ t = .yes := by cases t <;> decide

end Truth

/-- The two connectives. -/
inductive Connective where
  | and
  | or
  deriving DecidableEq, Repr

namespace Connective

/-- The word that stands between the two sides. -/
def word : Connective → String
  | .and => "AND"
  | .or => "OR"

/-- The connective on the other side of De Morgan's laws. -/
def flip : Connective → Connective
  | .and => .or
  | .or => .and

/-- FALSE settles an AND, TRUE settles an OR. -/
def decisive : Connective → Truth
  | .and => .no
  | .or => .yes

/-- The decisive value wins, the opposite value is neutral, and anything else is unknown. -/
def apply (c : Connective) (a b : Truth) : Truth :=
  if a = c.decisive ∨ b = c.decisive then c.decisive
  else if a = c.decisive.not ∧ b = c.decisive.not then c.decisive.not
  else .unknown

theorem apply_comm (c : Connective) (a b : Truth) : c.apply a b = c.apply b a := by
  cases c <;> cases a <;> cases b <;> rfl

theorem apply_assoc (c : Connective) (a b d : Truth) :
    c.apply (c.apply a b) d = c.apply a (c.apply b d) := by
  cases c <;> cases a <;> cases b <;> cases d <;> rfl

@[simp] theorem apply_self (c : Connective) (a : Truth) : c.apply a a = a := by
  cases c <;> cases a <;> rfl

@[simp] theorem apply_decisive_left (c : Connective) (b : Truth) :
    c.apply c.decisive b = c.decisive := by cases c <;> cases b <;> rfl

@[simp] theorem apply_decisive_right (c : Connective) (a : Truth) :
    c.apply a c.decisive = c.decisive := by cases c <;> cases a <;> rfl

@[simp] theorem apply_neutral_left (c : Connective) (b : Truth) :
    c.apply c.decisive.not b = b := by cases c <;> cases b <;> rfl

@[simp] theorem apply_neutral_right (c : Connective) (a : Truth) :
    c.apply a c.decisive.not = a := by cases c <;> cases a <;> rfl

/-- A connective of two outcomes, from left to right: after a decisive left side, the right side does not
count, not even if it has failed. -/
def applyInOrder {ε : Type} (c : Connective) (a b : Except ε Truth) : Except ε Truth :=
  match a with
  | .error e => .error e
  | .ok t => if t = c.decisive then .ok t else b.map (c.apply t)

@[simp] theorem applyInOrder_ok {ε : Type} (c : Connective) (s t : Truth) :
    c.applyInOrder (.ok s : Except ε Truth) (.ok t) = .ok (c.apply s t) := by
  by_cases h : s = c.decisive <;> simp [applyInOrder, h, Except.map]

@[simp] theorem applyInOrder_error {ε : Type} (c : Connective) (e : ε) (b : Except ε Truth) :
    c.applyInOrder (.error e) b = .error e := rfl

@[simp] theorem applyInOrder_decisive {ε : Type} (c : Connective) (b : Except ε Truth) :
    c.applyInOrder (.ok c.decisive) b = .ok c.decisive := by
  simp [applyInOrder]

@[simp] theorem applyInOrder_neutral {ε : Type} (c : Connective) (b : Except ε Truth) :
    c.applyInOrder (.ok c.decisive.not) b = b := by
  cases b with
  | error e => cases c <;> rfl
  | ok t => simp

/-- A connective that has a truth keeps it if both sides do. -/
theorem applyInOrder_of_ok {ε : Type} {c : Connective} {a a' b b' : Except ε Truth} {x : Truth}
    (ha : ∀ t, a = .ok t → a' = .ok t) (hb : ∀ t, b = .ok t → b' = .ok t)
    (h : c.applyInOrder a b = .ok x) : c.applyInOrder a' b' = .ok x := by
  cases a with
  | error e => simp at h
  | ok s =>
    rw [ha s rfl]
    by_cases hs : s = c.decisive
    · rw [hs, applyInOrder_decisive] at h ⊢
      exact h
    · cases b with
      | error e => simp [applyInOrder, hs, Except.map] at h
      | ok u => rwa [hb u rfl]

theorem not_apply (c : Connective) (a b : Truth) :
    (c.apply a b).not = c.flip.apply a.not b.not := by
  cases c <;> cases a <;> cases b <;> rfl

/-- De Morgan's law for outcomes. The same right sides are left out. -/
theorem map_not_applyInOrder {ε : Type} (c : Connective) (a b : Except ε Truth) :
    (c.applyInOrder a b).map Truth.not = c.flip.applyInOrder (a.map .not) (b.map .not) := by
  cases a with
  | error e => rfl
  | ok s =>
    cases b with
    | error e => cases c <;> cases s <;> rfl
    | ok t => simp [Except.map, not_apply]

end Connective

end RowPredicate
