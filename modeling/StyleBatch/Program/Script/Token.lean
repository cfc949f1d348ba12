import StyleBatch.Program.Script.Word

/-!
# Tokens of scripts

A script is cut into words, marks and redirections. Lines that a redirection takes from the
script follow the next line break; their text becomes its target.
-/

namespace StyleBatch.Script

inductive Shape where
  | word (w : Word)
  | mark (t : Text)
  | lineBreak
  | redirection (stream : Nat) (direction : Direction)
  | finish
  /-- The script cannot be read any further. -/
  | broken (message : Text)
deriving DecidableEq, Repr

/-- A token with the line in which its reading ended. -/
structure Token where
  line : Nat
  shape : Shape
deriving DecidableEq, Repr

/-- Lines of the script that are wanted. -/
structure Wanted where
  ending : Text
  /-- Whether the lines stand for themselves. -/
  literal : Bool
  /-- Whether tabs in front of lines are dropped. -/
  stripped : Bool

/-- A redirection mark for a stream, and whether it drops the tabs of lines. -/
def redirection? (stream : Option Nat) : Text → Option (Shape × Bool × Text)
  | '<' :: '<' :: '-' :: rest => some (.redirection (stream.getD 0) .here, true, rest)
  | '<' :: '<' :: rest => some (.redirection (stream.getD 0) .here, false, rest)
  | '<' :: '&' :: rest => some (.redirection (stream.getD 0) .join, false, rest)
  | '<' :: '>' :: rest => some (.redirection (stream.getD 0) .readWrite, false, rest)
  | '<' :: rest => some (.redirection (stream.getD 0) .read, false, rest)
  | '>' :: '>' :: rest => some (.redirection (stream.getD 1) .append, false, rest)
  | '>' :: '&' :: rest => some (.redirection (stream.getD 1) .join, false, rest)
  | '>' :: '|' :: rest => some (.redirection (stream.getD 1) .replace, false, rest)
  | '>' :: rest => some (.redirection (stream.getD 1) .write, false, rest)
  | _ => none

/-- A mark that stands for itself. -/
def mark? : Text → Option (Text × Text)
  | '&' :: '&' :: rest => some ("&&", rest)
  | '|' :: '|' :: rest => some ("||", rest)
  | ';' :: ';' :: rest => some (";;", rest)
  | c :: rest => if (";|()&" : Text).contains c then some ([c], rest) else none
  | [] => none

/-- Lines up to the one that ends them, as one text, and what follows. -/
def linesUpTo (wanted : Wanted) : Nat → Text → Text × Text
  | 0, t => ([], t)
  | _ + 1, [] => ([], [])
  | fuel + 1, t =>
    let raw := t.takeWhile (· != '\n')
    let rest := t.drop raw.length
    let line := if wanted.stripped then raw.dropWhile (· == '\t') else raw
    if line = wanted.ending then ([], rest.drop 1)
    else
      let (more, after) := linesUpTo wanted fuel (rest.drop 1)
      (line ++ rest.take 1 ++ more, after)

/-- The words that lines give, in the order in which they are wanted, and what follows. -/
def takeLines (line : Nat) : List Wanted → Text → List (Nat × Except Text Word) × Text
  | [], t => ([], t)
  | wanted :: more, t =>
    let (body, rest) := linesUpTo wanted (t.length + 1) t
    let word := if wanted.literal then .ok [.text body true] else quotedWord line body
    let line := line + countBreaks (t.take (t.length - rest.length))
    let (words, rest) := takeLines line more rest
    ((line, word) :: words, rest)

/-- The tokens of a script and the words that its redirections take from its lines. `strip?`
tells that the next word marks the end of lines. -/
def tokensFrom : Nat → Nat → Option Bool → List Wanted → Text →
    List Token × List (Nat × Except Text Word)
  | 0, line, _, _, _ => ([⟨line, .finish⟩], [])
  | fuel + 1, line, strip?, wanted, t =>
    let ended := fun (line : Nat) =>
      ([⟨line, .finish⟩], wanted.map fun _ => (line, .ok [.text [] true]))
    match t with
    | [] => ended line
    | ' ' :: rest => tokensFrom fuel line strip? wanted rest
    | '\t' :: rest => tokensFrom fuel line strip? wanted rest
    | '\\' :: '\n' :: rest => tokensFrom fuel (line + 1) strip? wanted rest
    | '#' :: rest => tokensFrom fuel line strip? wanted (rest.dropWhile (· != '\n'))
    | '\n' :: rest =>
      let (words, after) := takeLines (line + 1) wanted rest
      let next := line + 1 + countBreaks (rest.take (rest.length - after.length))
      let (tokens, more) := tokensFrom fuel next none [] after
      (⟨line + 1, .lineBreak⟩ :: tokens, words ++ more)
    | c :: rest =>
      let numbered := if c.isDigit then redirection? (some (c.toNat - '0'.toNat)) rest else none
      match (redirection? none t).orElse fun _ => numbered with
      | some (shape, strip, rest) =>
        let here := match shape with
          | .redirection _ .here => some strip
          | _ => none
        let (tokens, words) := tokensFrom fuel line here wanted rest
        (⟨line, shape⟩ :: tokens, words)
      | none =>
        match mark? t with
        | some (mark, rest) =>
          let (tokens, words) := tokensFrom fuel line none wanted rest
          (⟨line, .mark mark⟩ :: tokens, words)
        | none =>
          match readWord line t with
          | .error message => ([⟨line + countBreaks t, .broken message⟩], [])
          | .ok (w, rest) =>
            let line := line + countBreaks (t.take (t.length - rest.length))
            let wanted := match strip? with
              | some stripped =>
                let (ending, literal) := markOf w
                wanted ++ [⟨ending, literal, stripped⟩]
              | none => wanted
            let (tokens, words) := tokensFrom fuel line none wanted rest
            (⟨line, .word w⟩ :: tokens, words)

/-- Puts the words that lines give in the places of the marks for their ends. -/
def placeLines : List Token → List (Nat × Except Text Word) → List Token
  | ⟨line, .redirection stream .here⟩ :: ⟨_, .word mark⟩ :: tokens, found =>
    match found with
    | (_, .ok w) :: more =>
      ⟨line, .redirection stream .here⟩ :: ⟨line, .word w⟩ :: placeLines tokens more
    | (line, .error message) :: _ => [⟨line, .broken message⟩]
    | [] => ⟨line, .redirection stream .here⟩ :: ⟨line, .word mark⟩ :: placeLines tokens []
  | token :: tokens, found => token :: placeLines tokens found
  | [], _ => []

/-- The tokens of a script whose first line has the given number. -/
def tokens (line : Nat) (t : Text) : List Token :=
  let (tokens, words) := tokensFrom (t.length + 2) line none [] t
  placeLines tokens words

end StyleBatch.Script
