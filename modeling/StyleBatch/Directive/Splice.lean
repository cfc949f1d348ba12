import StyleBatch.Directive

/-!
# Splicing

Puts texts in the place of directives. Offsets are in bytes, so a span may miss a
character boundary or leave the source; splicing then has no result.
-/

namespace StyleBatch

namespace Text

/-- Cuts a text after `n` bytes, if a character ends there. -/
def cutBytes? : Nat → Text → Option (Text × Text)
  | 0, t => some ([], t)
  | _ + 1, [] => none
  | n + 1, c :: rest =>
    if c.utf8Size ≤ n + 1 then
      (cutBytes? (n + 1 - c.utf8Size) rest).map fun (before, after) => (c :: before, after)
    else none

end Text

namespace Directive

/-- `rest` is the source from the byte `offset` on. -/
def spliceFrom (offset : Nat) (rest : Text) : List (Directive × Text) → Option Text
  | [] => some rest
  | (d, replacement) :: more =>
    if offset ≤ d.start && d.start ≤ d.stop then do
      let (before, covering) ← Text.cutBytes? (d.start - offset) rest
      let (_, after) ← Text.cutBytes? (d.stop - d.start) covering
      let tail ← spliceFrom d.stop after more
      return before ++ replacement ++ tail
    else none

/-- The source with each directive's span replaced by the text beside it. -/
def splice (source : Text) (replacements : List (Directive × Text)) : Option Text :=
  spliceFrom 0 source replacements

/-- The source with each directive `d` replaced by `replacement d`. -/
def replaceEach (source : Text) (directives : List Directive) (replacement : Directive → Text) :
    Option Text :=
  splice source (directives.map fun d => (d, replacement d))

end Directive

end StyleBatch
