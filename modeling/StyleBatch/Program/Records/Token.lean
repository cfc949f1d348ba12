import StyleBatch.Program.Decimal
import StyleBatch.Program.Records
import StyleBatch.Program.Regex.Reader
import StyleBatch.Program.Replace

/-!
# Tokens of scripts over records

Whether a slash divides or opens an expression depends on the token in front of it.
-/

namespace StyleBatch.Records

inductive Shape where
  | number (x : Float)
  | text (t : Text)
  | regex (r : Regex) (written : Text)
  | name (name : Text)
  /-- A name with its bracket right behind it. -/
  | function (name : Text)
  | builtin (name : Text)
  | keyword (name : Text)
  | mark (t : Text)
  | lineBreak
  | finish

structure Token where
  line : Nat
  shape : Shape
  /-- The characters of the token. -/
  written : Text

def keywords : List Text :=
  Text.splitAtEach ' ' ("BEGIN END function func if else while for do break continue next exit " ++
    "return delete in getline print printf")

def builtins : List Text :=
  Text.splitAtEach ' ' ("length substr index split sub gsub match sprintf toupper tolower int " ++
    "sqrt exp log sin cos atan2 rand srand system close fflush")

/-- The marks, longer ones in front. -/
def marks : List Text :=
  Text.splitAtEach ' ' ("**= && || <= >= == != !~ >> ++ -- += -= *= /= %= ^= ** \x7b \x7d ( ) " ++
    "[ ] ; , + - * / % ^ ! < > | ? : ~ $ =")

/-- Whether a slash behind the token divides. -/
def Shape.isOperand : Shape → Bool
  | .number _ => true
  | .text _ => true
  | .name _ => true
  | .builtin _ => true
  | .mark t => t == ([')'] : Text) || t == [']'] || t == ("++" : Text) || t == ("--" : Text)
  | _ => false

/-- The character that a backslash and what follows it stand for, and what is left. -/
def escaped (rest : Text) : Text × Text :=
  match rest with
  | [] => (['\\'], [])
  | 'x' :: more =>
    let digits := (more.take 2).takeWhile fun c => c.isDigit || ("abcdefABCDEF" : Text).contains c
    let digit := fun (c : Char) =>
      if c.isDigit then c.toNat - '0'.toNat else c.toLower.toNat - 'a'.toNat + 10
    if digits.isEmpty then (['\\', 'x'], more)
    else
      ([Char.ofNat (digits.foldl (fun n c => n * 16 + digit c) 0)], more.drop digits.length)
  | c :: more =>
    if c = '"' ∨ c = '\\' then ([c], more)
    else
      let (b, left) := Program.escapedByte (UInt8.ofNat c.toNat) (Program.ascii more)
      let left := more.drop (more.length - left.length)
      if b = UInt8.ofNat c.toNat then (['\\', c], more) else ([Char.ofNat b.toNat], left)

/-- A text with its escapes replaced; `fuel` bounds its length. -/
def unescapedFrom : Nat → Text → Text
  | 0, t => t
  | _ + 1, [] => []
  | fuel + 1, '\\' :: rest =>
    let (t, rest) := escaped rest
    t ++ unescapedFrom fuel rest
  | fuel + 1, c :: rest => c :: unescapedFrom fuel rest

def unescaped (t : Text) : Text :=
  unescapedFrom t.length t

/-- The inside of a text in double quotes as it is written, and what follows. -/
def quoted? : Text → Option (Text × Text)
  | [] => none
  | '"' :: rest => some ([], rest)
  | '\n' :: _ => none
  | '\\' :: '\n' :: rest => quoted? rest
  | '\\' :: c :: rest => (quoted? rest).map fun (t, rest) => ('\\' :: c :: t, rest)
  | c :: rest => (quoted? rest).map fun (t, rest) => (c :: t, rest)

/-- An expression up to the slash that ends it; within a set a slash stands for itself. -/
def slashed? (inSet : Bool) : Text → Option (Text × Text)
  | [] => none
  | '\n' :: _ => none
  | '\\' :: '/' :: rest => (slashed? inSet rest).map fun (t, rest) => ('/' :: t, rest)
  | '\\' :: c :: rest => (slashed? inSet rest).map fun (t, rest) => ('\\' :: c :: t, rest)
  | c :: rest =>
    if c = '/' && !inSet then some ([], rest)
    else
      let inSet := if c = '[' then true else if c = ']' then false else inSet
      (slashed? inSet rest).map fun (t, rest) => (c :: t, rest)

/-- An expression with the escapes that stand for one character replaced. -/
def regexText : Text → Text
  | '\\' :: 'n' :: rest => '\n' :: regexText rest
  | '\\' :: 't' :: rest => '\t' :: regexText rest
  | '\\' :: '"' :: rest => '"' :: regexText rest
  | '\\' :: '/' :: rest => '/' :: regexText rest
  | '\\' :: '&' :: rest => '&' :: regexText rest
  | '\\' :: c :: rest => '\\' :: c :: regexText rest
  | c :: rest => c :: regexText rest
  | [] => []

def compileTrouble (trouble : Regex.Trouble) (t : Text) : Text :=
  let reason : Text := match trouble with
    | .openBracket => "missing ')'"
    | .openSet => "bad class -- [], [^] or ["
    | _ => "syntax error"
  "regular expression compile failed (" ++ reason ++ ")\n" ++ t

/-- Reads an expression. -/
def readRegex (t : Text) : Except Text Regex :=
  match Regex.read true (regexText t) with
  | .ok (r, _) => .ok r
  | .error trouble => .error (compileTrouble trouble t)

def isNameChar (c : Char) : Bool :=
  c.isAlphanum || c == '_'

/-- The token in front of a text that begins with neither blank nor comment. -/
def readShape (behindOperand : Bool) (t : Text) : Except Text (Shape × Text) :=
  match t with
  | [] => .ok (.finish, [])
  | '\n' :: rest => .ok (.lineBreak, rest)
  | '"' :: rest =>
    match quoted? rest with
    | some (t, rest) => .ok (.text (unescaped t), rest)
    | none => .error ("runaway string constant \"" ++ rest.takeWhile (· != '\n') ++ " ...")
  | c :: rest =>
    if c = '/' && !behindOperand then
      match slashed? false rest with
      | some (t, rest) => (readRegex t).map fun r => (.regex r t, rest)
      | none =>
        .error ("runaway regular expression /" ++ rest.takeWhile (· != '\n') ++ " ...")
    else if c.isDigit || (c = '.' && rest.head?.any Char.isDigit) then
      match Decimal.readFloat? t with
      | some (x, rest) => .ok (.number x, rest)
      | none => .error ("syntax error at or near " ++ [c])
    else if isNameChar c then
      let name := t.takeWhile isNameChar
      let rest := t.drop name.length
      if name = "func" then .ok (.keyword "function", rest)
      else if keywords.contains name then .ok (.keyword name, rest)
      else if builtins.contains name then .ok (.builtin name, rest)
      else if rest.head? = some '(' then .ok (.function name, rest)
      else .ok (.name name, rest)
    else match marks.find? fun mark => mark.isPrefixOf t with
      | some mark =>
        let plain : Text := if mark = "**" then "^" else if mark = "**=" then "^=" else mark
        .ok (.mark plain, t.drop mark.length)
      | none => .error ("unexpected character '" ++ [c] ++ "'")

/-- How many round and curly brackets are open. -/
structure Depth where
  round : Nat := 0
  curly : Nat := 0

def Depth.step (d : Depth) : Shape → Depth
  | .mark ['('] => { d with round := d.round + 1 }
  | .mark [')'] => { d with round := d.round - 1 }
  | .mark ['\x7b'] => { d with curly := d.curly + 1 }
  | .mark ['\x7d'] => { d with curly := d.curly - 1 }
  | _ => d

/-- What is said where a script ends too early. -/
def Depth.trouble (d : Depth) : Text :=
  if d.round > 0 then "missing ) near end of file"
  else if d.curly > 0 then "missing \x7d near end of file"
  else "syntax error at or near end of file"

/-- The tokens of a script; `fuel` bounds its length. -/
def tokensFrom : Nat → Nat → Depth → Bool → Text → Except (List Trouble) (List Token)
  | 0, line, _, _, _ => .ok [⟨line, .finish, []⟩]
  | fuel + 1, line, depth, behindOperand, t =>
    match t with
    | ' ' :: rest => tokensFrom fuel line depth behindOperand rest
    | '\t' :: rest => tokensFrom fuel line depth behindOperand rest
    | '\r' :: rest => tokensFrom fuel line depth behindOperand rest
    | '\\' :: '\n' :: rest => tokensFrom fuel (line + 1) depth behindOperand rest
    | '#' :: rest => tokensFrom fuel line depth behindOperand (rest.dropWhile (· != '\n'))
    | [] => .ok [⟨line + 1, .finish, depth.trouble⟩]
    | t =>
      match readShape behindOperand t with
      | .error message => .error [⟨line, message⟩]
      | .ok (shape, rest) =>
        let next := match shape with
          | .lineBreak => line + 1
          | _ => line
        (tokensFrom fuel next (depth.step shape) shape.isOperand rest).map fun tokens =>
          ⟨line, shape, t.take (t.length - rest.length)⟩ :: tokens

def tokens (t : Text) : Except (List Trouble) (List Token) :=
  tokensFrom (t.length + 1) 1 {} false t

end StyleBatch.Records
