import StyleBatch.Address
import StyleBatch.Directive
import StyleBatch.Loader
import StyleBatch.Paint
import StyleBatch.Specifier

/-!
# Listing imports

The directives of one stylesheet with the keys that their specifiers have there.
-/

namespace StyleBatch.Listing

/-- A directive's specifier as it is written, and its key. -/
structure Row where
  specifier : Text
  key : Key
deriving DecidableEq, Repr

/-- The base of a path below a working directory. -/
def base (root path : Text) : Text :=
  Address.base (Loader.disk root).workingDirectory? (Loader.addressOf root path)

/-- One row for each directive of a source. -/
def rows (root extension path source : Text) : List Row :=
  (Directive.scan source).map fun d =>
    ⟨d.specifier, (Specifier.toImport extension (base root path) d.specifier).key⟩

def Row.write (row : Row) : Text :=
  "  " ++ Text.padEnd 30 row.specifier ++ ' ' :: row.key.text

/-- A heading and the rows, a line each. -/
def write (paint : Paint) (root extension path source : Text) : Text :=
  let rows := rows root extension path source
  let heading : Text := paint.apply .cyan "→" ++ " " ++ path ++ " (" ++ Text.ofNat rows.length ++
    " imports, base " ++ base root path ++ ")"
  (heading :: rows.map Row.write).flatMap fun line => line ++ ['\n']

end StyleBatch.Listing
