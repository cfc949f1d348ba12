import StyleBatch.Program.Reading

/-!
# Programs that change files and directories

`ls`, `mkdir`, `rmdir`, `rm`, `cp`, `mv`, `touch`, and `basename` and `dirname`, which only look
at names.
-/

namespace StyleBatch.Program

/-- Works through names one after the other and collects what is said; complaints set the exit
code. -/
def forEach (p : Process) (code : Nat) (names : List Text)
    (step : Disk → Text → Except Text Disk) : Finished :=
  let (disk, errors) := names.foldl (fun ((disk : Disk), errors) name =>
    match step disk name with
    | .ok disk => (disk, errors)
    | .error message =>
      (disk, errors ++ Utf8.encode (p.name ++ ": " ++ message ++ ['\n']))) (p.disk, ([] : Bytes))
  ⟨.code (if errors.isEmpty then 0 else code), [], errors, p.input, disk⟩

/-- What cannot be done, with its reason. -/
def refusal (what name : Text) (fault : DiskFault) : Text :=
  what ++ quoteName name ++ ": " ++ fault.reason

/-! ## Names -/

def dropSlashes (t : Text) : Text :=
  Text.dropEnd (· == '/') t

/-- The last part of a path. -/
def baseOf (path : Text) : Text :=
  if path.isEmpty then []
  else if path.all (· == '/') then ['/']
  else ((dropSlashes path).reverse.takeWhile (· != '/')).reverse

def basename : Program := fun p =>
  match p.arguments.filter (· != ("--" : Text)) with
  | [] => p.misuse 1 "missing operand"
  | [path] => p.print (Utf8.encode (baseOf path ++ ['\n']))
  | [path, ending] =>
    let base := baseOf path
    let cut := match Text.before? ending base with
      | some [] => base
      | some start => start
      | none => base
    p.print (Utf8.encode (cut ++ ['\n']))
  | _ :: _ :: extra :: _ => p.misuse 1 ("extra operand " ++ quoteName extra)

/-- A path without its last part. -/
def directoryOf (path : Text) : Text :=
  let path := if path.all (· == '/') then path.take 1 else dropSlashes path
  let start := (path.reverse.dropWhile (· != '/')).reverse
  if start.isEmpty then ['.']
  else if start.all (· == '/') then ['/']
  else dropSlashes start

def dirname : Program := fun p =>
  match p.arguments.filter (· != ("--" : Text)) with
  | [] => p.misuse 1 "missing operand"
  | paths => p.print (paths.flatMap fun path => Utf8.encode (directoryOf path ++ ['\n']))

/-! ## Listing -/

/-- The names in a directory in their order; those with a dot in front only if asked for. -/
def listed (disk : Disk) (all almost : Bool) (segments : List Text) : List Text :=
  let names := disk.names segments
  let names := if all then [("." : Text), ".."] ++ names else names
  let shown := if all || almost then names else names.filter fun name => name.head? != some '.'
  shown.mergeSort fun a b => (Text.order a b).isLE

/-- Lists files first and then directories, under their names where there are several. -/
def ls : Program :=
  withOptions 2 [{ letter := '1' }, ⟨'a', false, "all"⟩, ⟨'A', false, "almost-all"⟩,
    ⟨'d', false, "directory"⟩] fun parsed p =>
    let names := if parsed.operands.isEmpty then [("." : Text)] else parsed.operands
    let sorted := names.mergeSort fun a b => (Text.order a b).isLE
    let missing := sorted.filter fun name => !p.disk.has name
    let directories := sorted.filter fun name => p.disk.isDirectory name && !parsed.has 'd'
    let others := sorted.filter fun name =>
      p.disk.has name && !(p.disk.isDirectory name && !parsed.has 'd')
    let lines := fun (names : List Text) => (names.map fun name => name ++ ['\n']).flatten
    let blocks := directories.map fun name =>
      let inside := match p.disk.place name with
        | .ok place => listed p.disk (parsed.has 'a') (parsed.has 'A') place.segments
        | .error _ => []
      (if names.length > 1 then name ++ ":\n" else []) ++ lines inside
    let first := if others.isEmpty then [] else [lines others]
    let errors := missing.flatMap fun name =>
      let fault := match p.disk.lookup name with
        | .error fault => fault
        | .ok _ => .notFound
      Utf8.encode (p.name ++ ": cannot access " ++ quoteName name ++ ": " ++ fault.reason ++ ['\n'])
    ⟨.code (if missing.isEmpty then 0 else 2),
      Utf8.encode (Text.joinWith "\n" (first ++ blocks)), errors, p.input, p.disk⟩

/-! ## Making and removing -/

/-- A program that goes through its operands, of which there has to be one. -/
def overOperands (forms : List OptionForm) (step : Parsed → Disk → Text → Except Text Disk) :
    Program :=
  withOptions 1 forms fun parsed p =>
    if parsed.operands.isEmpty && !parsed.has 'f' then p.misuse 1 "missing operand"
    else forEach p 1 parsed.operands (step parsed)

def mkdir : Program :=
  overOperands [⟨'p', false, "parents"⟩, ⟨'m', true, "mode"⟩] fun parsed disk name =>
    let made := if parsed.has 'p' then disk.makePath name else disk.makeDirectory name
    match made with
    | .ok disk => .ok disk
    | .error fault => .error (refusal "cannot create directory " name fault)

/-- A disk without an entry and all below it. -/
def without (disk : Disk) (segments : List Text) : Disk :=
  { disk with entries := disk.entries.filter fun entry => !segments.isPrefixOf entry.1 }

def rmdir : Program :=
  overOperands [{ letter := 'p' }] fun _ disk name =>
    match disk.place name, disk.lookup name with
    | .ok place, .ok .directory =>
      if (disk.names place.segments).isEmpty then .ok (without disk place.segments)
      else .error ("failed to remove " ++ quoteName name ++ ": Directory not empty")
    | .ok _, .ok (.file _) => .error (refusal "failed to remove " name .notDirectory)
    | _, .error fault => .error (refusal "failed to remove " name fault)
    | .error fault, _ => .error (refusal "failed to remove " name fault)

def rm : Program :=
  overOperands [⟨'f', false, "force"⟩, ⟨'r', false, "recursive"⟩, { letter := 'R' },
    ⟨'d', false, "dir"⟩, ⟨'i', false, "interactive"⟩, ⟨'v', false, "verbose"⟩]
    fun parsed disk name =>
      match disk.place name, disk.lookup name with
      | .ok place, .ok (.file _) => .ok (without disk place.segments)
      | .ok place, .ok .directory =>
        if parsed.has 'r' || parsed.has 'R' then .ok (without disk place.segments)
        else .error (refusal "cannot remove " name .isDirectory)
      | _, .error fault =>
        if parsed.has 'f' && (fault == .notFound || fault == .notDirectory) then .ok disk
        else .error (refusal "cannot remove " name fault)
      | .error fault, _ => .error (refusal "cannot remove " name fault)

def touch : Program :=
  withOptions 1 [⟨'c', false, "no-create"⟩, { letter := 'a' }, { letter := 'm' },
    { letter := 't', takesValue := true }, { letter := 'd', takesValue := true },
    { letter := 'r', takesValue := true }] fun parsed p =>
    if parsed.operands.isEmpty then p.misuse 1 "missing file operand"
    else forEach p 1 parsed.operands fun disk name =>
      if disk.has name || parsed.has 'c' then .ok disk
      else match disk.write name [] with
        | .ok disk => .ok disk
        | .error fault => .error (refusal "cannot touch " name fault)

/-! ## Copying and moving -/

/-- A path below a directory, if the target is one. -/
def within (disk : Disk) (target source : Text) : Text :=
  if disk.isDirectory target then dropSlashes target ++ '/' :: baseOf source else target

/-- Copies or moves each source; several need a directory to go to. -/
def transfer (step : Disk → Text → Text → Except Text Disk) (parsed : Parsed) : Program := fun p =>
  match parsed.operands.reverse with
  | [] => p.misuse 1 "missing file operand"
  | [source] => p.misuse 1 ("missing destination file operand after " ++ quoteName source)
  | target :: sources =>
    if sources.length > 1 && !p.disk.isDirectory target then
      p.complain 1 ("target " ++ quoteName target ++ ": " ++
        (if p.disk.has target then DiskFault.notDirectory else .notFound).reason)
    else forEach p 1 sources.reverse fun disk source =>
      step disk source (within disk target source)

/-- Entries at a place and below it, moved to another place. -/
def transplanted (disk : Disk) (source target : List Text) : Table (List Text) Entry :=
  disk.entries.filterMap fun (segments, entry) =>
    if source.isPrefixOf segments then some (target ++ segments.drop source.length, entry) else none

/-- Puts entries on a disk. -/
def withEntries (disk : Disk) (entries : Table (List Text) Entry) : Disk :=
  { disk with
    entries := entries.foldl (fun table (segments, entry) => Table.set table segments entry)
      disk.entries }

def cp : Program :=
  withOptions 1 [⟨'r', false, "recursive"⟩, { letter := 'R' }, ⟨'a', false, "archive"⟩,
    ⟨'f', false, "force"⟩, { letter := 'p' }] fun parsed =>
    transfer (fun disk source target =>
      match disk.lookup source, disk.place source, disk.place target with
      | .error fault, _, _ => .error (refusal "cannot stat " source fault)
      | .ok (.file bytes), .ok from_, .ok to_ =>
        if from_.segments = to_.segments then
          .error (quoteName source ++ " and " ++ quoteName target ++ " are the same file")
        else match disk.write target bytes with
          | .ok disk => .ok disk
          | .error fault => .error (refusal "cannot create regular file " target fault)
      | .ok .directory, .ok from_, .ok to_ =>
        if parsed.has 'r' || parsed.has 'R' || parsed.has 'a' then
          .ok (withEntries disk (transplanted disk from_.segments to_.segments))
        else .error ("-r not specified; omitting directory " ++ quoteName source)
      | .ok _, _, .error fault => .error (refusal "cannot create regular file " target fault)
      | .ok _, .error fault, _ => .error (refusal "cannot stat " source fault)) parsed

def mv : Program :=
  withOptions 1 [⟨'f', false, "force"⟩, ⟨'n', false, "no-clobber"⟩] fun parsed =>
    transfer (fun disk source target =>
      match disk.lookup source, disk.place source, disk.place target with
      | .error fault, _, _ => .error (refusal "cannot stat " source fault)
      | .ok _, .ok from_, .ok to_ =>
        if from_.segments = to_.segments then
          .error (quoteName source ++ " and " ++ quoteName target ++ " are the same file")
        else if parsed.has 'n' && disk.has target then .ok disk
        else
          .ok (withEntries (without disk from_.segments)
            (transplanted disk from_.segments to_.segments))
      | .ok _, _, .error fault =>
        .error ("cannot move " ++ quoteName source ++ " to " ++ refusal [] target fault)
      | .ok _, .error fault, _ => .error (refusal "cannot stat " source fault)) parsed

end StyleBatch.Program
