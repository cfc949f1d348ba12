import StyleBatch.Table
import StyleBatch.Text

/-!
# Variables

The variables of a process, by name.
-/

namespace StyleBatch

abbrev Variables := Table Text Text

namespace Variables

/-- Gives a variable a value unless it has one. -/
def setMissing (name value : Text) (bindings : Variables) : Variables :=
  if Table.has bindings name then bindings else Table.set bindings name value

end Variables

end StyleBatch
