import RowPredicate.Collation
import RowPredicate.Settings

/-!
# Sessions

The settings a statement runs under, with the policy that compares its values.
-/

namespace RowPredicate

structure Session where
  settings : Settings
  policy : ComparePolicy

/-- The session that compares by the collation its settings ask for. -/
def Session.ofSettings (settings : Settings) : Session :=
  ⟨settings, (Collation.mk settings.ignoreCase).policy⟩

end RowPredicate
