import StyleBatch.Text

/-!
# Cache keys and locations

An import has two identities: the key, known before anything is looked up, and the
location, known once the loader has found the file.
-/

namespace StyleBatch

/-- Identity of an import before its location is known: base path, bar, file. -/
structure Key where
  text : Text
deriving DecidableEq, Repr

namespace Key

def separator : Char := '|'

def ofParts (base file : Text) : Key :=
  ⟨base ++ separator :: file⟩

/-- The base path: what stands before the first bar. -/
def base (key : Key) : Text :=
  match Text.cutAt? separator key.text with
  | some (base, _) => base
  | none => []

end Key

/-- Where a file was found. -/
structure Location where
  text : Text
deriving DecidableEq, Repr

namespace Location

def pluginMark : Char := '!'

/-- Drops a loader plugin suffix: `a.scss!css` is the location `a.scss`. -/
def ofAddress (address : Text) : Location :=
  match Text.cutAt? pluginMark address with
  | some (path, _) => ⟨path⟩
  | none => ⟨address⟩

end Location

end StyleBatch
