import StyleBatch.Text

/-!
# Blank characters

The characters with the Unicode property `White_Space`, and the two uses made of
them: trimming a text, and cutting it into words.
-/

namespace StyleBatch

/-- The characters with the Unicode property `White_Space`. -/
def Char.isBlank (c : Char) : Bool :=
  let n := c.toNat
  (0x09 ≤ n && n ≤ 0x0D) || n == 0x20 || n == 0x85 || n == 0xA0 || n == 0x1680 ||
    (0x2000 ≤ n && n ≤ 0x200A) || n == 0x2028 || n == 0x2029 || n == 0x202F || n == 0x205F ||
    n == 0x3000

namespace Text

/-- The text without the blanks around it. -/
def trim (t : Text) : Text :=
  dropEnd Char.isBlank (t.dropWhile Char.isBlank)

/-- The words of a text: its longest runs without blanks. -/
def words : Text → List Text
  | [] => []
  | c :: rest =>
    if Char.isBlank c then words rest
    else match rest with
      | [] => [[c]]
      | d :: _ =>
        if Char.isBlank d then [c] :: words rest
        else match words rest with
          | word :: more => (c :: word) :: more
          | [] => [[c]]

end Text

end StyleBatch
