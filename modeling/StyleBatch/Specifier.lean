import StyleBatch.Key

/-!
# Specifiers

The text between the quotes of an import directive is turned into a file: a name
without extension means a partial (`foo/bar` is `foo/_bar.scss`), and a file that is
neither relative nor below the base path gets a leading `./`.
-/

namespace StyleBatch

/-- An import with its identity; `file` is what the loader is asked for. -/
structure Import where
  key : Key
  file : Text
deriving DecidableEq, Repr

namespace Specifier

def isRelative (path : Text) : Bool :=
  (Text.after? "./" path).isSome || (Text.after? "../" path).isSome

/-- Whether the specifier ends in a dot and the extension. -/
def hasExtension (extension specifier : Text) : Bool :=
  match Text.before? extension specifier with
  | some stem => stem.getLast? == some '.'
  | none => false

/-- Name of the partial that a specifier without extension means. -/
def partialFile (extension specifier : Text) : Text :=
  if hasExtension extension specifier then specifier
  else match Text.cutAtLast? '/' specifier with
    | some (directory, name) => directory ++ "/_" ++ name ++ "." ++ extension
    | none => "_" ++ specifier ++ "." ++ extension

/-- The file that a specifier means in a source with the given base path. -/
def file (extension base specifier : Text) : Text :=
  let file := partialFile extension specifier
  if isRelative file || base.isPrefixOf file then file else "./" ++ file

/-- The import that a specifier means in a source with the given base path. -/
def toImport (extension base specifier : Text) : Import :=
  ⟨Key.ofParts base (file extension base specifier), file extension base specifier⟩

end Specifier

end StyleBatch
