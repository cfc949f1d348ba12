import StyleBatch.Toml.Quoted

/-!
# Writing TOML

A document of sections with simple entries. Sections are set apart by an empty line; a
list of two texts or more has one on each line.
-/

namespace StyleBatch.Toml

inductive Entry where
  | flag (b : Bool)
  | number (n : Nat)
  | text (t : Text)
  | texts (ts : List Text)
deriving DecidableEq, Repr

structure Section where
  name : Text
  entries : List (Text × Entry)
deriving DecidableEq, Repr

/-- An item of a list on a line of its own. -/
def Entry.line (t : Text) : Text :=
  [' ', ' ', ' ', ' '] ++ quote t ++ [',', '\n']

def Entry.write : Entry → Text
  | .flag b => if b then "true" else "false"
  | .number n => Text.ofNat n
  | .text t => quote t
  | .texts [] => "[]"
  | .texts [t] => '[' :: quote t ++ [']']
  | .texts ts => ['[', '\n'] ++ ts.flatMap Entry.line ++ [']']

def Section.write (s : Section) : Text :=
  '[' :: s.name ++ [']', '\n'] ++
    s.entries.flatMap fun (name, entry) => name ++ [' ', '=', ' '] ++ entry.write ++ ['\n']

def write (sections : List Section) : Text :=
  Text.joinWith ['\n'] (sections.map Section.write)

end StyleBatch.Toml
