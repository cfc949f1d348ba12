import StyleBatch.Program

/-!
# Signals

The names of signals, their numbers and what is said about a process that they end.
-/

namespace StyleBatch.Signal

def names : List (Text × Nat) :=
  [("HUP", 1), ("INT", 2), ("QUIT", 3), ("ILL", 4), ("TRAP", 5), ("ABRT", 6), ("BUS", 7),
    ("FPE", 8), ("KILL", 9), ("USR1", 10), ("SEGV", 11), ("USR2", 12), ("PIPE", 13),
    ("ALRM", 14), ("TERM", 15), ("STKFLT", 16), ("CHLD", 17), ("CONT", 18), ("STOP", 19),
    ("TSTP", 20), ("TTIN", 21), ("TTOU", 22), ("URG", 23), ("XCPU", 24), ("XFSZ", 25),
    ("VTALRM", 26), ("PROF", 27), ("WINCH", 28), ("IO", 29), ("PWR", 30), ("SYS", 31)]

/-- The number of a signal, given by name or number. -/
def number? (t : Text) : Option Nat :=
  match Program.number? t with
  | some n => if n ≤ 64 then some n else none
  | none =>
    let upper := t.map Char.toUpper
    (names.find? fun entry => entry.1 == upper).map Prod.snd

/-- The name of a signal; the end of a script counts as one. -/
def name (n : Nat) : Text :=
  if n = 0 then "EXIT"
  else match names.find? fun entry => entry.2 == n with
    | some entry => entry.1
    | none => Text.ofNat n

/-- Whether a process goes on after the signal. -/
def isHarmless (n : Nat) : Bool :=
  n == 0 || n == 17 || n == 18 || n == 23 || n == 28

/-- What a shell says about a process that the signal has ended. -/
def epitaph (n : Nat) : Text :=
  if n = 1 then "Hangup"
  else if n = 3 then "Quit"
  else if n = 4 then "Illegal instruction"
  else if n = 6 then "Aborted"
  else if n = 8 then "Floating point exception"
  else if n = 9 then "Killed"
  else if n = 11 then "Segmentation fault"
  else if n = 14 then "Alarm clock"
  else if n = 15 then "Terminated"
  else if n = 10 then "User defined signal 1"
  else if n = 12 then "User defined signal 2"
  else []

end StyleBatch.Signal
