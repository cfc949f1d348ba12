import StyleBatch.Program.Arithmetic

/-!
# Conditions

What `test` and `[` decide: facts about files, texts and numbers, joined by `!`, `-a`, `-o`
and brackets.
-/

namespace StyleBatch.Condition

/-- Operators with one operand. -/
def prefixes : List Text :=
  Text.splitAtEach ' ' "-b -c -d -e -f -g -h -k -n -p -r -s -t -u -w -x -z -G -L -O -S"

/-- Operators between two operands. -/
def betweens : List Text :=
  Text.splitAtEach ' ' "= == != < > -eq -ne -lt -le -gt -ge -nt -ot -ef"

/-- A number, perhaps with blanks around it. -/
def number (t : Text) : Except Text Int :=
  match Program.signed? (Text.dropEnd (· == ' ') (t.dropWhile (· == ' '))) with
  | some n => if wrap64 n = n then .ok n else .error ("Illegal number: " ++ t)
  | none => .error ("Illegal number: " ++ t)

def holdsBefore (disk : Disk) (operator a : Text) : Bool :=
  if operator = "-n" then !a.isEmpty
  else if operator = "-z" then a.isEmpty
  else if operator = "-f" then disk.isFile a
  else if operator = "-d" then disk.isDirectory a
  else if operator = "-x" then disk.isDirectory a
  else if operator = "-s" then
    match disk.lookup a with
    | .ok (.file bytes) => !bytes.isEmpty
    | .ok .directory => true
    | .error _ => false
  else if ["-e", "-r", "-w", "-O", "-G"].any fun (o : String) => operator == o.toList then
    disk.has a
  else false

def holdsBetween (disk : Disk) (a operator b : Text) : Except Text Bool :=
  let compared := fun (p : Int → Int → Bool) => do return p (← number a) (← number b)
  if operator = "=" ∨ operator = "==" then .ok (a == b)
  else if operator = "!=" then .ok (a != b)
  else if operator = "<" then .ok ((Text.order a b).isLT)
  else if operator = ">" then .ok ((Text.order a b).isGT)
  else if operator = "-eq" then compared (· == ·)
  else if operator = "-ne" then compared (· != ·)
  else if operator = "-lt" then compared fun m n => decide (m < n)
  else if operator = "-le" then compared fun m n => decide (m ≤ n)
  else if operator = "-gt" then compared fun m n => decide (m > n)
  else if operator = "-ge" then compared fun m n => decide (m ≥ n)
  else if operator = "-ef" then
    match disk.place a, disk.place b with
    | .ok p, .ok q => .ok (disk.has a && p.segments == q.segments)
    | _, _ => .ok false
  else .ok false

/-- Whether the first word is an operand although it looks like an operator. -/
def isOperand : List Text → Bool
  | [_] => true
  | [_, _] => false
  | _ :: operator :: _ => betweens.contains operator
  | [] => true

mutual

def primary (disk : Disk) : Nat → List Text → Except Text (Bool × List Text)
  | 0, words => .ok (false, words)
  | fuel + 1, words =>
    match words with
    | [] => .ok (false, [])
    | word :: rest =>
      if word = "!" && !isOperand words then do
        let (b, rest) ← primary disk fuel rest
        return (!b, rest)
      else if word = "(" && !rest.isEmpty && !isOperand words then do
        if rest.head? = some ")" then return (false, rest.tail)
        let (b, rest) ← either disk fuel rest
        match rest with
        | [')'] :: rest => return (b, rest)
        | _ => throw ("closing paren expected" : Text)
      else if prefixes.contains word && !isOperand words then
        match rest with
        | a :: rest => .ok (holdsBefore disk word a, rest)
        | [] => .error (word ++ ": argument expected")
      else
        match rest with
        | operator :: more =>
          if betweens.contains operator then
            match more with
            | b :: rest => do return (← holdsBetween disk word operator b, rest)
            | [] => .error (operator ++ ": argument expected")
          else .ok (!word.isEmpty, rest)
        | [] => .ok (!word.isEmpty, rest)

def both (disk : Disk) : Nat → List Text → Except Text (Bool × List Text)
  | 0, words => .ok (false, words)
  | fuel + 1, words => do
    let (a, rest) ← primary disk fuel words
    match rest with
    | ['-', 'a'] :: rest =>
      let (b, rest) ← both disk fuel rest
      return (a && b, rest)
    | rest => return (a, rest)

def either (disk : Disk) : Nat → List Text → Except Text (Bool × List Text)
  | 0, words => .ok (false, words)
  | fuel + 1, words => do
    let (a, rest) ← both disk fuel words
    match rest with
    | ['-', 'o'] :: rest =>
      let (b, rest) ← either disk fuel rest
      return (a || b, rest)
    | rest => return (a, rest)

end

/-- Whether a condition holds, or the trouble with it. A single `!` in front of up to three words
negates them all. -/
def decide? (disk : Disk) (words : List Text) : Except Text Bool :=
  let whole := fun (words : List Text) => do
    let (b, rest) ← either disk (3 * words.length + 5) words
    match rest, words[words.length - rest.length - 1]? with
    | [], _ => return b
    | _, some word => throw (word ++ ": unexpected operator")
    | _, none => return b
  match words with
  | ["!", a, b, c] => (whole [a, b, c]).map not
  | ["!", a, b] => if betweens.contains a then whole words else (whole [a, b]).map not
  | words => whole words

/-- The exit code of a condition, and what is said about it. -/
def status (disk : Disk) (words : List Text) : Nat × Option Text :=
  match decide? disk words with
  | .ok true => (0, none)
  | .ok false => (1, none)
  | .error message => (2, some message)

end StyleBatch.Condition
