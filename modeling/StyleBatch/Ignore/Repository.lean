import StyleBatch.Disk
import StyleBatch.Text.Blank
import StyleBatch.Variables

/-!
# Repositories

Where a repository keeps rules of its own, and where the user keeps rules for all
repositories.
-/

namespace StyleBatch.Repository

/-! ## One repository -/

/-- The first line of a file, if it is text. -/
def firstLine? (disk : Disk) (path : Text) : Option Text :=
  match disk.read path with
  | .error _ => none
  | .ok bytes =>
    match Bytes.lines bytes with
    | [] => none
    | line :: _ =>
      (Utf8.decode? line).map fun t =>
        match Text.before? "\r\n" t with
        | some t => t
        | none => (Text.before? "\n" t).getD t

/-- Whether a directory is the top of a repository. -/
def isTop (disk : Disk) (directory : Text) : Bool :=
  disk.has (Path.join directory ".git") || disk.has (Path.join directory ".jj")

/-- The directory with the repository's own files. A file in its place names a directory,
which names it in turn. -/
def ownDirectory? (disk : Disk) (directory : Text) : Option Text :=
  let place := Path.join directory ".git"
  if disk.isFile place then do
    let link ← Text.after? "gitdir: " (← firstLine? disk place)
    let common ← firstLine? disk (Path.join link "commondir")
    return if common.head? == some '.' then Path.join link common else common
  else some place

/-- The file with the repository's own rules. -/
def ownRules? (disk : Disk) (directory : Text) : Option Text :=
  (ownDirectory? disk directory).map fun own => Path.join own "info/exclude"

/-! ## The user's settings -/

def isSpace (b : UInt8) : Bool :=
  b == 32 || (9 ≤ b && b ≤ 13)

def quote : UInt8 := 34

/-- Whether only blanks and one quote stand between here and the end of some line. -/
def endsLine (bytes : Bytes) : Bool :=
  let ends := fun (t : Bytes) =>
    let blanks := t.takeWhile isSpace
    blanks.contains Bytes.lineFeed || blanks.length == t.length
  ends bytes || match bytes.dropWhile isSpace with
    | b :: rest => b == quote && ends rest
    | [] => false

/-- The shortest beginning, of at least one byte and without blanks, behind which a line
ends. -/
def value? : Bytes → Bytes → Option Bytes
  | _, [] => none
  | begun, b :: rest =>
    if isSpace b then none
    else if endsLine rest then some (begun ++ [b])
    else value? (begun ++ [b]) rest

/-- The value that a text writes behind its equals sign, with or without quotes. -/
def quotedValue? (t : Bytes) : Option Bytes :=
  let t := t.dropWhile isSpace
  let quoted := match t with
    | b :: rest => if b = quote then value? [] (rest.dropWhile isSpace) else none
    | [] => none
  quoted.orElse fun _ => value? [] t

/-- The bytes behind a name, whose letters may be large. -/
def afterName? (name : Text) (t : Bytes) : Option Bytes :=
  let here := t.take name.length
  if here.map (fun b => (Char.ofNat b.toNat).toLower) = name then some (t.drop name.length)
  else none

/-- The setting that names the user's file of rules, where a line begins with it. -/
def setting? (lines : Bytes) : Option Bytes := do
  let rest ← afterName? "excludesfile" (lines.dropWhile isSpace)
  match rest.dropWhile isSpace with
  | 61 :: value => quotedValue? value
  | _ => none

/-- The lines of some bytes, each with all that follows it. -/
def linesOnwards : List Bytes → List Bytes
  | [] => []
  | line :: rest => (line ++ rest.flatten) :: linesOnwards rest

/-- The user's file of rules as a file of settings names it; `~` stands for the home
directory. -/
def namedRules? (home : Option Text) (settings : Bytes) : Option Text := do
  let value ← (linesOnwards (Bytes.lines settings)).findSome? setting?
  let path ← Utf8.decode? value
  return match home with
    | some home => path.flatMap fun c => if c = '~' then home else [c]
    | none => path

/-- The directory of the user's settings. -/
def settingsDirectory? (bindings : Variables) : Option Text :=
  match Table.get? bindings "XDG_CONFIG_HOME" with
  | some (c :: rest) => some (c :: rest)
  | _ => (Table.get? bindings "HOME").map fun home => Path.join home ".config"

/-- The file with the user's rules: the settings in the home directory count before those
in the directory of settings, and without either there is a fixed place. -/
def userRules? (disk : Disk) (bindings : Variables) : Option Text :=
  let home := Table.get? bindings "HOME"
  let named := fun (path : Text) =>
    match disk.read path with
    | .ok settings => namedRules? home settings
    | .error _ => none
  let inHome := home.bind fun home => named (Path.join home ".gitconfig")
  let directory := settingsDirectory? bindings
  let inDirectory := directory.bind fun d => named (Path.join d "git/config")
  (inHome.orElse fun _ => inDirectory).orElse fun _ =>
    directory.map fun d => Path.join d "git/ignore"

end StyleBatch.Repository
