import RowPredicate.Parameter

/-!
# Simplifications

A step of simplification may fail, and it may record column types in the store of the parameters.
What it has recorded stays recorded, also when it fails later.

* `run_pure`, `run_bind`: how simplifications follow each other;
* `traverse` simplifies the elements of a list one after the other.
-/

namespace RowPredicate

/-- From a store to an outcome and the store afterwards. -/
structure Simplification (α : Type) where
  run : Store → Except Error α × Store

namespace Simplification

variable {α β : Type}

/-- Runs `f` on the result of `m`, in the store that `m` left behind. A failure of `m` is final. -/
def andThen (m : Simplification α) (f : α → Simplification β) : Simplification β :=
  ⟨fun s =>
    match m.run s with
    | (.ok a, s') => (f a).run s'
    | (.error e, s') => (.error e, s')⟩

instance : Monad Simplification where
  pure a := ⟨fun s => (.ok a, s)⟩
  bind := andThen

/-- An outcome that is computed from the store and leaves it alone. -/
def read (f : Store → Except Error α) : Simplification α :=
  ⟨fun s => (f s, s)⟩

/-- Records the type of the column that a parameter is compared with. -/
def record (p : Parameter) (t : DataType) : Simplification Unit :=
  ⟨fun s => (.ok (), s.setColumnType p t)⟩

/-- Applies `f` to each element, from left to right. -/
def traverse (f : α → Simplification β) : List α → Simplification (List β)
  | [] => return []
  | a :: as => do
    let b ← f a
    let bs ← traverse f as
    return b :: bs

@[simp] theorem run_pure (a : α) (s : Store) :
    (pure a : Simplification α).run s = (.ok a, s) := rfl

theorem run_bind (m : Simplification α) (f : α → Simplification β) (s : Store) :
    (m >>= f).run s =
      match m.run s with
      | (.ok a, s') => (f a).run s'
      | (.error e, s') => (.error e, s') := rfl

theorem run_bind_of_ok {m : Simplification α} {f : α → Simplification β} {s s' : Store} {a : α}
    (h : m.run s = (.ok a, s')) : (m >>= f).run s = (f a).run s' := by
  rw [run_bind, h]

theorem run_bind_of_error {m : Simplification α} {f : α → Simplification β} {s s' : Store}
    {e : Error} (h : m.run s = (.error e, s')) : (m >>= f).run s = (.error e, s') := by
  rw [run_bind, h]

@[simp] theorem run_read (f : Store → Except Error α) (s : Store) :
    (read f).run s = (f s, s) := rfl

@[simp] theorem run_record (p : Parameter) (t : DataType) (s : Store) :
    (record p t).run s = (.ok (), s.setColumnType p t) := rfl

end Simplification

end RowPredicate
