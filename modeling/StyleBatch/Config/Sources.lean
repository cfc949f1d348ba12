import StyleBatch.Config.File
import StyleBatch.Text.Blank
import StyleBatch.Variables

/-!
# Sources of the configuration

The file of the project counts before the file of the user, and that before the defaults;
variables of the process override single settings.
-/

namespace StyleBatch

namespace Config

def projectFile : Text :=
  "sassline.toml"

/-- The user's directory for settings of programs. -/
def userDirectory (bindings : Variables) : Text :=
  match Table.get? bindings "XDG_CONFIG_HOME" with
  | some ('/' :: rest) => '/' :: rest
  | _ =>
    match Table.get? bindings "HOME" with
    | some (c :: home) => Path.join (c :: home) ".config"
    | _ => "."

/-- The file of the user. -/
def userFile (bindings : Variables) : Text :=
  Path.join (Path.join (userDirectory bindings) "sassline") "config.toml"

/-- The configuration of the first file that exists. -/
def load (disk : Disk) (bindings : Variables) : Except Fault Config :=
  if disk.has projectFile then loadFrom disk projectFile
  else if disk.has (userFile bindings) then loadFrom disk (userFile bindings)
  else .ok {}

/-- A flag among the variables; a blank one counts as missing. -/
def flag? (bindings : Variables) (name : Text) : Except Fault (Option Bool) :=
  match Table.get? bindings name with
  | none => .ok none
  | some value =>
    let word := Text.lowerAscii (Text.trim value)
    if word.isEmpty then .ok none
    else if word = "1" ∨ word = "true" ∨ word = "yes" ∨ word = "on" then .ok (some true)
    else if word = "0" ∨ word = "false" ∨ word = "no" ∨ word = "off" then .ok (some false)
    else .error (.badFlag name value)

/-- Takes the compiler from a command line, unless it is blank. -/
def withCommandLine (line : Text) (c : Config) : Config :=
  match Text.words line with
  | [] => c
  | command :: arguments => { c with compiler := ⟨command, arguments⟩ }

/-- Overrides settings by variables. -/
def withVariables (bindings : Variables) (c : Config) : Except Fault Config := do
  let authoritative ← flag? bindings "SASSLINE_AUTHORITATIVE"
  let packaging ← flag? bindings "SASSLINE_PACKAGING"
  let c := { c with
    environment := ⟨authoritative.getD c.environment.authoritative,
      packaging.getD c.environment.packaging⟩ }
  return match Table.get? bindings "SASSLINE_COMPILER" with
    | some line => c.withCommandLine line
    | none => c

end Config

end StyleBatch
