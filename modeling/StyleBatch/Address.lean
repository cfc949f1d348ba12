import StyleBatch.Text

/-!
# Addresses

An address names a file: a path, a `file:` URL or an `http(s):` URL. Its base path is
the directory part, the same for every form of address of one file.
-/

namespace StyleBatch.Address

/-- What follows `http://host/` or `https://host/` at the start of a text. -/
def afterOrigin? (t : Text) : Option Text := do
  let rest ← Text.after? "http" t
  let rest ← Text.after? "://" (match rest with
    | 's' :: more => more
    | _ => rest)
  match rest.takeWhile (· != '/'), rest.dropWhile (· != '/') with
  | _ :: _, _ :: path => some path
  | _, _ => none

/-- Removes the first origin, wherever it stands. -/
def withoutOrigin : Text → Text
  | [] => []
  | c :: rest =>
    match afterOrigin? (c :: rest) with
    | some path => path
    | none => c :: withoutOrigin rest

/-- Directory part with a trailing slash; a bare file name lies in `/`. The working
directory, where there is one, is removed as `file:<directory>/` first. -/
def base (workingDirectory : Option Text) (address : Text) : Text :=
  let path := match workingDirectory with
    | some directory => Text.replaceFirst ("file:" ++ directory ++ "/") [] address
    | none => address
  match Text.cutAtLast? '/' (withoutOrigin path) with
  | some (directory, _) => directory ++ ['/']
  | none => ['/']

end StyleBatch.Address
