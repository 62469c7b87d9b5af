import RowPredicate.Error

/-!
# Statement parameters

A parameter stands for a value that a statement is given before it runs. Its slot holds that value, and
the type of the column that the parameter is compared with once this is known.

* `Store` holds the slots of all parameters;
* `slot_setColumnType`: recording a type changes one part of one slot.
-/

namespace RowPredicate

/-- A parameter: its place in the statement, counted from zero, and its slot. Two parameters at one
place count as the same expression, but they may have slots of their own. -/
structure Parameter where
  index : Nat
  slot : String
  deriving DecidableEq, Repr

/-- What is known of a parameter. -/
@[ext]
structure Slot where
  value : Option Value := none
  columnType : Option DataType := none
  deriving DecidableEq, Repr, Inhabited

/-- The slots of all parameters. -/
structure Store where
  slot : Parameter → Slot

namespace Parameter

/-- Parameters are numbered from one. -/
def sql (p : Parameter) : String :=
  "?" ++ Error.number (p.index + 1)

end Parameter

namespace Store

/-- No parameter has a value or a type yet. -/
def empty : Store := ⟨fun _ => {}⟩

/-- Changes one slot. -/
def update (s : Store) (p : Parameter) (f : Slot → Slot) : Store :=
  ⟨fun q => if q = p then f (s.slot q) else s.slot q⟩

def setValue (s : Store) (p : Parameter) (v : Value) : Store :=
  s.update p fun slot => { slot with value := some v }

/-- Records the type of the column that a parameter is compared with. -/
def setColumnType (s : Store) (p : Parameter) (t : DataType) : Store :=
  s.update p fun slot => { slot with columnType := some t }

def value (s : Store) (p : Parameter) : Except Error Value :=
  match (s.slot p).value with
  | some v => .ok v
  | none => .error (.parameterNotSet p.index)

/-- The recorded column type, or else the type of the value. -/
def type? (s : Store) (p : Parameter) : Option DataType :=
  (s.slot p).columnType.or ((s.slot p).value.bind Value.type?)

theorem slot_setColumnType (s : Store) (p q : Parameter) (t : DataType) :
    (s.setColumnType p t).slot q =
      if q = p then { s.slot q with columnType := some t } else s.slot q := rfl

end Store

end RowPredicate
