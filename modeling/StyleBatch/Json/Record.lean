import StyleBatch.Json

/-!
# Records

A record is written as an object with named fields, or as an array of its fields in
their order. Unknown names are passed over, too many array items are not.
-/

namespace StyleBatch.Json

/-- The fields of a record in order, `none` where one is missing. -/
def fields? (names : List Text) : Json → Option (List (Option Json))
  | .object members => some (names.map fun name => members.lookup name)
  | .array items =>
    if items.length ≤ names.length then
      some ((List.range names.length).map fun i => items[i]?)
    else none
  | _ => none

/-- Whether a record in its array form lacks fields. -/
def isShort (names : List Text) : Json → Bool
  | .array items => items.length < names.length
  | _ => false

def asText? : Json → Option Text
  | .string t => some t
  | _ => none

def asBool? : Json → Option Bool
  | .bool b => some b
  | _ => none

/-- An integer between the bounds. -/
def asInt? (low high : Int) : Json → Option Int
  | .int n => if low ≤ n ∧ n ≤ high then some n else none
  | _ => none

/-- A natural number below `2 ^ bits`. -/
def asNat? (bits : Nat) : Json → Option Nat
  | .int n => if 0 ≤ n ∧ n.toNat < Nat.pow 2 bits then some n.toNat else none
  | _ => none

/-- An integer of 32 bits with sign. -/
def asStatus? (v : Json) : Option Int :=
  asInt? (-2147483648) 2147483647 v

/-- A list of texts. -/
def asTexts? : Json → Option (List Text)
  | .array items => items.mapM asText?
  | _ => none

/-- A text, or nothing where the value is null or the field is missing. -/
def asOptionalText? : Option Json → Option (Option Text)
  | none => some none
  | some .null => some none
  | some (.string t) => some (some t)
  | some _ => none

/-- A field that may be missing. -/
def orDefault {α : Type} (default : α) (read : Json → Option α) : Option Json → Option α
  | none => some default
  | some v => read v

end StyleBatch.Json
