import StyleBatch.Text

/-!
# Import directives

A stylesheet is cut into lexemes: import directives, and everything else. Comments and
string literals are lexemes of their own, so a directive inside one is not found.
The lexemes of a source, put together again, are the source.
-/

namespace StyleBatch

/-- An import directive; the span goes from the `@` through the closing quote. -/
structure Directive where
  specifier : Text
  start : Nat
  stop : Nat
deriving DecidableEq, Repr

/-- A piece of a stylesheet. -/
inductive Lexeme where
  | plain (t : Text)
  | directive (filler : Text) (quote : Char) (specifier : Text)
deriving DecidableEq, Repr

namespace Lexeme

def keyword : Text := "@import"

/-- The piece as it stands in the source. -/
def text : Lexeme → Text
  | plain t => t
  | directive filler quote specifier => keyword ++ filler ++ [quote] ++ specifier ++ [quote]

/-- The rest of a block comment through its end mark, or all when there is none. -/
def blockComment : Text → Text
  | '*' :: '/' :: _ => ['*', '/']
  | c :: rest => c :: blockComment rest
  | [] => []

/-- The rest of a line comment; the line feed is not part of it. -/
def lineComment (t : Text) : Text :=
  t.takeWhile (· != '\n')

/-- The rest of a string literal through its closing quote. A backslash takes the next
character with it, a line feed ends an unclosed literal and is not part of it. -/
def stringLiteral (quote : Char) : Text → Text
  | [] => []
  | ['\\'] => ['\\']
  | '\\' :: c :: rest => '\\' :: c :: stringLiteral quote rest
  | c :: rest =>
    if c = '\n' then []
    else if c = quote then [c]
    else c :: stringLiteral quote rest

def isQuote (c : Char) : Bool :=
  c == '"' || c == '\''

def isLineEnd (c : Char) : Bool :=
  c == '\n' || c == '\r'

/-- Characters that continue an at-word: `@imports` and `@import-x` are other rules. -/
def isWordChar (c : Char) : Bool :=
  c.isAlphanum || c == '-' || c == '_'

/-- Characters that may stand between the keyword and the quote. -/
def isFiller (c : Char) : Bool :=
  !(c == ';' || isLineEnd c || isQuote c)

/-- What follows the keyword, read as filler, quote, specifier and the same quote. -/
def afterKeyword? (t : Text) : Option Lexeme :=
  let filler := t.takeWhile isFiller
  match t.dropWhile isFiller with
  | quote :: rest =>
    let inside := fun c => !(isLineEnd c || c == quote)
    let specifier := rest.takeWhile inside
    if isQuote quote && !filler.isEmpty && !specifier.isEmpty
        && (rest.dropWhile inside).head? == some quote then
      some (directive filler quote specifier)
    else none
  | [] => none

/-- The lexeme that starts at an `@`, given what follows the `@`. -/
def atWord (rest : Text) : Lexeme :=
  match Text.after? keyword ('@' :: rest) with
  | some (c :: more) =>
    if isWordChar c then plain ['@']
    else (afterKeyword? (c :: more)).getD (plain keyword)
  | _ => plain ['@']

/-- The first lexeme of the text `c :: rest`. -/
def first (c : Char) (rest : Text) : Lexeme :=
  match c, rest with
  | '/', '*' :: body => plain ('/' :: '*' :: blockComment body)
  | '/', '/' :: body => plain ('/' :: '/' :: lineComment body)
  | '@', _ => atWord rest
  | _, _ => if isQuote c then plain (c :: stringLiteral c rest) else plain [c]

/-- The lexemes of a text after its first `skip` characters. -/
def listAfter : Nat → Text → List Lexeme
  | _, [] => []
  | 0, c :: rest => first c rest :: listAfter ((first c rest).text.length - 1) rest
  | skip + 1, _ :: rest => listAfter skip rest

/-- The directives among lexemes that start at the byte offset `offset`. -/
def directives (offset : Nat) : List Lexeme → List Directive
  | [] => []
  | plain t :: rest => directives (offset + Text.byteSize t) rest
  | directive filler quote specifier :: rest =>
    let stop := offset + Text.byteSize (directive filler quote specifier).text
    ⟨specifier, offset, stop⟩ :: directives stop rest

end Lexeme

namespace Directive

/-- All lexemes of a source. -/
def lexemes (source : Text) : List Lexeme :=
  Lexeme.listAfter 0 source

/-- The import directives of a source in order. A source without the keyword is not
cut into lexemes at all. -/
def scan (source : Text) : List Directive :=
  if Text.holds Lexeme.keyword source then Lexeme.directives 0 (lexemes source) else []

/-- The specifiers of a source in order, repeated ones included. -/
def specifiers (source : Text) : List Text :=
  (scan source).map Directive.specifier

end Directive

end StyleBatch
