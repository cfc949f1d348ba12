import StyleBatch.Text

/-!
# Faults

Everything that can go wrong, by cause. A fault has a code, a message that starts with
the code, and a suggestion for the reader.
-/

namespace StyleBatch

inductive Fault where
  | badConfig (reason : Text)
  | badFlag (flag value : Text)
  | emptySpecifier (address : Text)
  | notNormalized (specifier base reason : Text)
  | notLocated (name reason : Text)
  | notFetched (address reason : Text)
  | circularImport (chain : List Text)
  | noCompiler (command reason : Text)
  | compileFailed (status : Int) (message : Text)
  | artifactNotWritten (path reason : Text)
  | noEntries (paths : Text)
  | io (path reason : Text)
deriving DecidableEq, Repr

namespace Fault

def code : Fault → Text
  | badConfig .. => "SASS-001"
  | badFlag .. => "SASS-002"
  | emptySpecifier .. => "SASS-010"
  | notNormalized .. => "SASS-020"
  | notLocated .. => "SASS-021"
  | notFetched .. => "SASS-022"
  | circularImport .. => "SASS-030"
  | noCompiler .. => "SASS-040"
  | compileFailed .. => "SASS-041"
  | artifactNotWritten .. => "SASS-050"
  | noEntries .. => "SASS-060"
  | io .. => "SASS-061"

/-- The message without its code. -/
def description : Fault → Text
  | badConfig reason => "Failed to load config: " ++ reason
  | badFlag flag value =>
    "Invalid value for '" ++ flag ++ "': '" ++ value ++ "' (expected true/false/1/0)"
  | emptySpecifier address => "Empty import specifier in '" ++ address ++ "'"
  | notNormalized specifier base reason =>
    "Cannot normalize '" ++ specifier ++ "' against '" ++ base ++ "': " ++ reason
  | notLocated name reason => "Cannot locate module '" ++ name ++ "': " ++ reason
  | notFetched address reason => "Failed to fetch '" ++ address ++ "': " ++ reason
  | circularImport chain => "Circular import: " ++ Text.joinWith " -> " chain
  | noCompiler command reason => "Failed to start compiler '" ++ command ++ "': " ++ reason
  | compileFailed status message =>
    "Compiler exited with status " ++ Text.ofInt status ++ ": " ++ message
  | artifactNotWritten path reason => "Failed to write artifact '" ++ path ++ "': " ++ reason
  | noEntries paths => "No entry stylesheets found in: " ++ paths
  | io path reason => "IO error on '" ++ path ++ "': " ++ reason

def message (fault : Fault) : Text :=
  "[" ++ fault.code ++ "] " ++ fault.description

/-- Whether a loader reported the fault. -/
def isLoaderFault : Fault → Bool
  | notNormalized .. | notLocated .. | notFetched .. => true
  | _ => false

/-- What the reader can do about it. -/
def suggestion : Fault → Text
  | badConfig .. => "Check sassline.toml syntax and field names"
  | badFlag .. => "Use true/false or 1/0 for environment flags"
  | emptySpecifier .. => "Remove the empty @import \"\" directive"
  | notNormalized .. => "Check the import path is relative to the file"
  | notLocated .. => "Partials are looked up as '_name.scss' next to the importing file"
  | notFetched .. => "Check the file exists and is readable UTF-8"
  | circularImport .. => "Break the cycle by moving shared rules into a separate partial"
  | noCompiler .. => "Install the compiler or set SASSLINE_COMPILER / --compiler"
  | compileFailed .. => "The compiler rejected the batch; fix the reported stylesheet error"
  | artifactNotWritten .. => "Check the artifact directory is writable"
  | noEntries .. => "Pass .scss files or directories containing non-partial .scss files"
  | io .. => "Check file path and permissions"

/-- Name of the diagnostic in reports. -/
def diagnostic : Fault → Text
  | badConfig .. => "sassline::config_error"
  | badFlag .. => "sassline::invalid_env_flag"
  | emptySpecifier .. => "sassline::empty_specifier"
  | notNormalized .. => "sassline::normalize_failed"
  | notLocated .. => "sassline::locate_failed"
  | notFetched .. => "sassline::fetch_failed"
  | circularImport .. => "sassline::circular_import"
  | noCompiler .. => "sassline::compiler_unavailable"
  | compileFailed .. => "sassline::compile_failed"
  | artifactNotWritten .. => "sassline::artifact_write_failed"
  | noEntries .. => "sassline::no_entries"
  | io .. => "sassline::io_error"

/-- Reports repeat the suggestion as help where it says more than the message. -/
def help? (fault : Fault) : Option Text :=
  match fault with
  | badConfig .. | notLocated .. | circularImport .. | noCompiler .. | compileFailed .. =>
    some fault.suggestion
  | _ => none

end Fault

/-- What a resolution ends in: a text or a fault. -/
abbrev Outcome := Except Fault Text

scoped instance decidableEqOutcome {α β : Type} [DecidableEq α] [DecidableEq β] :
    DecidableEq (Except α β)
  | .ok a, .ok b => if h : a = b then .isTrue (h ▸ rfl) else .isFalse fun e => h (by injection e)
  | .error a, .error b =>
    if h : a = b then .isTrue (h ▸ rfl) else .isFalse fun e => h (by injection e)
  | .ok _, .error _ => .isFalse nofun
  | .error _, .ok _ => .isFalse nofun

end StyleBatch
