import RowPredicate.Expr.Eval
import RowPredicate.Index.Condition

/-!
# Index scans

The index conditions on one column, with their lookups evaluated, leave a part of the index to read: no
key, one key, or the keys between two bounds.

* `gather` evaluates the lookups; a NULL lookup selects nothing, except that the null-safe equality
  selects the NULL key;
* `lookupType`: all lookups are converted to one type, the highest of the column's and of theirs;
* `Bounds.add` narrows the bounds by one lookup, and `Bounds.close` turns them into a scan;
* `Scan.ofConditions` does all of this, and `Scan.admits` tells whether a key belongs to a scan.
-/

namespace RowPredicate

/-- One end of a range of keys. -/
structure Bound where
  value : Value
  /-- Whether the value itself belongs to the range. -/
  inclusive : Bool
  deriving DecidableEq, Repr

/-- The part of an index to read. -/
inductive Scan where
  | empty
  | exact (key : Value)
  | range (start stop : Option Bound)
  deriving DecidableEq, Repr

/-- Which end of a range a bound is. -/
inductive Side where
  | start
  | stop
  deriving DecidableEq, Repr

/-- How the keys of a range stand to its bound. -/
def Side.inner : Side → Ordering
  | .start => .gt
  | .stop => .lt

namespace Bound

/-- Whether a value of the bound's type lies on the inner side. -/
def admits (p : ComparePolicy) (side : Side) (b : Bound) (v : Value) : Except Error Bool := do
  let o ← p.compare v b.value
  return o == side.inner || (o == .eq && b.inclusive)

/-- The stricter of two bounds for one side. Bounds with equal values keep the first value, which is
included only if both include it. -/
def tighten (p : ComparePolicy) (side : Side) (current : Option Bound) (b : Bound) :
    Except Error Bound :=
  match current with
  | none => .ok b
  | some known => do
    let o ← p.compare b.value known.value
    return if o == side.inner then b
      else if o == .eq then ⟨known.value, known.inclusive && b.inclusive⟩
      else known

/-- A bound as an index takes it: its value, and whether the value is included. Without a bound, nothing
is. -/
def split : Option Bound → Option Value × Bool
  | some b => (some b.value, b.inclusive)
  | none => (none, false)

end Bound

/-- An index condition whose lookup has been evaluated to a value other than NULL. -/
structure Lookup where
  condition : IndexCondition
  value : Value
  deriving Repr

namespace Lookup

/-- The type of a lookup: what is known of it without a row, or else that of its value. -/
def type? (store : Store) (l : Lookup) : Option DataType :=
  (l.condition.lookup.type? store).or l.value.type?

end Lookup

/-- What the index conditions on a column ask for. -/
inductive Demand where
  /-- A lookup is NULL where it must not be, so no key will do. -/
  | nothing
  /-- All the lookups, and whether the NULL key was asked for. -/
  | keys (nullKey : Bool) (lookups : List Lookup)
  deriving Repr

namespace Demand

/-- Asks for the NULL key too. -/
def withNullKey : Demand → Demand
  | .nothing => .nothing
  | .keys _ ls => .keys true ls

/-- Puts a lookup in front. -/
def withLookup (l : Lookup) : Demand → Demand
  | .nothing => .nothing
  | .keys nullKey ls => .keys nullKey (l :: ls)

end Demand

/-- Evaluates the lookups of index conditions from left to right, up to a NULL that selects nothing. -/
def gather (ctx : Context) : List IndexCondition → Except Error Demand
  | [] => .ok (.keys false [])
  | c :: cs => do
    let v ← c.lookup.eval ctx
    if v.isNull then
      if c.op = .binary .equalNullSafe then return (← gather ctx cs).withNullKey
      else return .nothing
    else return (← gather ctx cs).withLookup ⟨c, v⟩

/-- The type that all keys and lookups are converted to. -/
def lookupType (store : Store) (column : Column) (lookups : List Lookup) : DataType :=
  lookups.foldl (fun t l => (DataType.higher? (some t) (l.type? store)).getD t) column.type

/-- The keys that are left while lookups are taken in one by one. -/
structure Bounds where
  exact : Option Value := none
  start : Option Bound := none
  stop : Option Bound := none
  deriving DecidableEq, Repr

namespace Bounds

/-- Narrows the bounds by one condition, whose lookup has the given value. Nothing is left when two
equalities disagree. An operator that says nothing about a range of keys leaves the bounds alone. -/
def add (p : ComparePolicy) (b : Bounds) (c : IndexCondition) (v : Value) :
    Except Error (Option Bounds) :=
  match c.op with
  | .unary _ => return some b
  | .binary op =>
    match op with
    | .equal | .equalNullSafe =>
      match b.exact with
      | none => return some { b with exact := some v }
      | some known => do
        return if ← p.equal known v then some b else none
    | .greater | .greaterOrEqual => do
      let start ← Bound.tighten p .start b.start ⟨v, op == .greaterOrEqual⟩
      return some { b with start := some start }
    | .less | .lessOrEqual => do
      let stop ← Bound.tighten p .stop b.stop ⟨v, op == .lessOrEqual⟩
      return some { b with stop := some stop }
    | .notEqual | .notEqualNullSafe => return some b

/-- Takes in all lookups, converted to one type. -/
def addAll (p : ComparePolicy) (t : DataType) (b : Bounds) : List Lookup → Except Error (Option Bounds)
  | [] => .ok (some b)
  | l :: ls => do
    let v ← l.value.convert t
    match ← b.add p l.condition v with
    | none => return none
    | some narrowed => narrowed.addAll p t ls

/-- Whether a value lies within the bound of one side, if there is one. -/
def within (p : ComparePolicy) (side : Side) (bound : Option Bound) (v : Value) : Except Error Bool :=
  match bound with
  | none => .ok true
  | some b => b.admits p side v

/-- The scan for the keys that are left. -/
def close (p : ComparePolicy) (b : Bounds) : Except Error Scan :=
  match b.exact with
  | some v => do
    let afterStart ← within p .start b.start v
    let beforeStop ← within p .stop b.stop v
    return if afterStart && beforeStop then .exact v else .empty
  | none =>
    match b.start, b.stop with
    | some start, some stop => do
      match ← p.compare start.value stop.value with
      | .gt => return .empty
      | .eq => return if start.inclusive && stop.inclusive then .exact start.value else .empty
      | .lt => return .range b.start b.stop
    | _, _ => return .range b.start b.stop

end Bounds

namespace Scan

/-- The scan that the index conditions on a column leave; nothing if none is on the column. -/
def ofConditions (ctx : Context) (column : Column) (conditions : List IndexCondition) :
    Except Error (Option Scan) := do
  match ← gather ctx (conditions.filter fun c => c.column == column) with
  | .nothing => return some .empty
  | .keys false [] => return none
  | .keys true [] => return some (.exact .null)
  | .keys true (_ :: _) => return some .empty
  | .keys false ls =>
    match ← Bounds.addAll ctx.policy (lookupType ctx.store column ls) {} ls with
    | none => return some .empty
    | some b => return some (← b.close ctx.policy)

/-- Converts a key to the type of a bound. -/
def convertKey (key bound : Value) : Except Error Value :=
  match bound.type? with
  | some t => key.convert t
  | none => .ok key

/-- Whether a key lies within the bound of one side, if there is one. -/
def admitsSide (p : ComparePolicy) (side : Side) (bound : Option Bound) (key : Value) :
    Except Error Bool :=
  match bound with
  | none => .ok true
  | some b => do b.admits p side (← convertKey key b.value)

/-- Whether a key belongs to a scan. The NULL key belongs only to the scan for it. -/
def admits (p : ComparePolicy) (key : Value) : Scan → Except Error Bool
  | .empty => .ok false
  | .exact v =>
    if v.isNull then .ok key.isNull
    else if key.isNull then .ok false
    else do p.equal (← convertKey key v) v
  | .range start stop =>
    if key.isNull then .ok false
    else do
      let afterStart ← admitsSide p .start start key
      let beforeStop ← admitsSide p .stop stop key
      return afterStart && beforeStop

end Scan

end RowPredicate
