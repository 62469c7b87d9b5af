import RowPredicate.Text.Blank
import RowPredicate.Text.Case

/-!
# Settings

Four switches govern how conditions are simplified and compared. A text such as
`OPTIMIZE_OR=FALSE; IGNORECASE=TRUE` sets some of them and leaves the others at their defaults.

* `Settings.trySet` sets one switch by name: what it was refused with, as a `SettingError`, and the
  settings that it leaves; `Settings.set` is the same for those who stop at a refusal;
* `Settings.parse` reads the assignments of a text from left to right and stops at the first bad one.
-/

namespace RowPredicate

/-- A switch that can be set by name. -/
inductive Switch where
  | optimizeIsNull
  | optimizeOr
  | optimizeTwoEquals
  | ignoreCase
  deriving DecidableEq, Repr

namespace Switch

/-- The names of the switches. One has two spellings. -/
def names : List (String × Switch) :=
  [("OPTIMIZE_IS_NULL", .optimizeIsNull), ("OPTIMIZE_OR", .optimizeOr),
   ("OPTIMIZE_TWO_EQUALS", .optimizeTwoEquals), ("IGNORECASE", .ignoreCase),
   ("IGNORE_CASE", .ignoreCase)]

/-- The switch of a name, letter case aside. -/
def named? (key : String) : Option Switch :=
  (names.find? fun entry => Text.sameWord entry.1 key).map (·.2)

end Switch

/-- The words for on and off, letter case aside. -/
def Switch.positions : List (String × Bool) :=
  [("TRUE", true), ("1", true), ("FALSE", false), ("0", false)]

/-- Reads the position of a switch. -/
def Switch.position? (value : String) : Option Bool :=
  (positions.find? fun entry => Text.sameWord entry.1 value).map (·.2)

structure Settings where
  /-- Look up the NULL key of an index for `column IS NULL`. -/
  optimizeIsNull : Bool := true
  /-- Merge `a = x OR a = y` into `a IN(x, y)`. -/
  optimizeOr : Bool := true
  /-- Derive `a = c` from `a = b AND b = c`. -/
  optimizeTwoEquals : Bool := true
  /-- Compare text without regard to the case of A to Z. -/
  ignoreCase : Bool := false
  deriving DecidableEq, Repr, Inhabited

/-- Why an assignment was refused. -/
inductive SettingError where
  /-- A segment of the text has no equals sign. -/
  | missingValue (segment : String)
  | invalidValue (key value : String)
  | unknownKey (key : String)
  deriving DecidableEq, Repr

/-- The wording of a refusal. -/
def SettingError.message : SettingError → String
  | .missingValue segment => "Missing value for setting " ++ segment
  | .invalidValue key value =>
    "Invalid value for " ++ key ++ ": Expected TRUE or FALSE, got " ++ value
  | .unknownKey key => "Unknown setting: " ++ key

namespace Settings

/-- The position of one switch. -/
def get (s : Settings) : Switch → Bool
  | .optimizeIsNull => s.optimizeIsNull
  | .optimizeOr => s.optimizeOr
  | .optimizeTwoEquals => s.optimizeTwoEquals
  | .ignoreCase => s.ignoreCase

/-- Puts one switch into a position. -/
def assign (s : Settings) (switch : Switch) (position : Bool) : Settings :=
  match switch with
  | .optimizeIsNull => { s with optimizeIsNull := position }
  | .optimizeOr => { s with optimizeOr := position }
  | .optimizeTwoEquals => { s with optimizeTwoEquals := position }
  | .ignoreCase => { s with ignoreCase := position }

/-- Sets a switch by name: the refusal, if any, and the settings afterwards. The value is read before the
name is looked up, so a bad value is reported first. -/
def trySet (s : Settings) (key value : String) : Option SettingError × Settings :=
  match Switch.position? value with
  | none => (some (.invalidValue key value), s)
  | some position =>
    match Switch.named? key with
    | none => (some (.unknownKey key), s)
    | some switch => (none, s.assign switch position)

/-- Sets a switch by name. After a refusal, nobody looks at the settings any more. -/
def set (s : Settings) (key value : String) : Except SettingError Settings :=
  match s.trySet key value with
  | (none, changed) => .ok changed
  | (some e, _) => .error e

/-- The parts of a text between semicolons, trimmed, without the empty ones. -/
def segments (text : String) : List (List Char) :=
  ((text.toList.splitOn ';').map Text.trim).filter fun s => !s.isEmpty

/-- The two sides of the first equals sign, trimmed. -/
def keyValue? (segment : List Char) : Option (String × String) :=
  match segment.dropWhile (· != '=') with
  | [] => none
  | _ :: value =>
    some (String.ofList (Text.trim (segment.takeWhile (· != '='))),
      String.ofList (Text.trim value))

/-- Carries out the assignment that a segment holds. -/
def setSegment (s : Settings) (segment : List Char) : Except SettingError Settings :=
  match keyValue? segment with
  | none => .error (.missingValue (String.ofList segment))
  | some (key, value) => s.set key value

/-- Reads assignments separated by semicolons, starting from the defaults. -/
def parse (text : String) : Except SettingError Settings :=
  (segments text).foldlM setSegment {}

@[simp] theorem get_assign (s : Settings) (a b : Switch) (position : Bool) :
    (s.assign a position).get b = if b = a then position else s.get b := by
  cases a <;> cases b <;> rfl

end Settings

end RowPredicate
