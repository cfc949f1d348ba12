import StyleBatch.Json
import StyleBatch.Key

/-!
# Loads

A load is a stylesheet to be translated. Its text changes while its imports are
resolved: a directive becomes a placeholder, `NUL key NUL`, and the placeholder becomes
the imported text or nothing. The marks keep a key apart from a longer one that ends in it.
-/

namespace StyleBatch

namespace Key

/-- What stands in a text for an import that is not resolved yet. -/
def placeholder (key : Key) : Text :=
  '\x00' :: key.text ++ ['\x00']

/-- Whether a placeholder of the key is left in a text. -/
def isPending (key : Key) (t : Text) : Bool :=
  Text.holds key.placeholder t

/-- The first placeholder of the key replaced, if there is one. -/
def substitute? (key : Key) (replacement t : Text) : Option Text :=
  (Text.cut? key.placeholder t).map fun (before, after) => before ++ replacement ++ after

/-- The first placeholder of the key replaced; without one the text stays. -/
def substitute (key : Key) (replacement t : Text) : Text :=
  (substitute? key replacement t).getD t

end Key

/-- A stylesheet to be translated, and what the loader is told about it. -/
structure Load where
  address : Text
  text : Text
  metadata : List (Text × Json) := []
deriving Repr, Inhabited

end StyleBatch
