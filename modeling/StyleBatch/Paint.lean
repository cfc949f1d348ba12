import StyleBatch.Variables

/-!
# Paint

Text with styles for a terminal. Whether anything is painted is decided once for a run.
-/

namespace StyleBatch

/-- Whether text is painted. -/
structure Paint where
  on : Bool := false
deriving DecidableEq, Repr

namespace Paint

inductive Style where
  | red
  | boldRed
  | green
  | yellow
  | cyan
  | boldCyan
deriving DecidableEq, Repr

/-- The sequence that turns a style on. -/
def Style.sequence (style : Style) : Text :=
  let code : Text := match style with
    | red => "31"
    | boldRed => "1;31"
    | green => "32"
    | yellow => "33"
    | cyan => "36"
    | boldCyan => "1;36"
  "\x1b[" ++ code ++ "m"

/-- The sequence that turns all styles off. -/
def reset : Text :=
  "\x1b[0m"

/-- Puts a text behind every occurrence of a mark; `skip` characters belong to the
occurrence that was found last. -/
def behindEach (mark insert : Text) : Nat → Text → Text
  | _, [] => []
  | skip + 1, c :: rest =>
    c :: (if skip = 0 then insert ++ behindEach mark insert skip rest
      else behindEach mark insert skip rest)
  | 0, c :: rest =>
    if mark.isPrefixOf (c :: rest) then c :: behindEach mark insert (mark.length - 1) rest
    else c :: behindEach mark insert 0 rest

/-- Paints a text; where the text turns styles off, the style is turned on again. -/
def apply (paint : Paint) (style : Style) (t : Text) : Text :=
  if paint.on then style.sequence ++ behindEach reset style.sequence 0 t ++ reset else t

/-- Text is painted where the variables force it: output does not go to a terminal. -/
def ofVariables (bindings : Variables) : Paint :=
  match Table.get? bindings "CLICOLOR_FORCE" with
  | some value => ⟨value != ['0']⟩
  | none => ⟨false⟩

end Paint

end StyleBatch
