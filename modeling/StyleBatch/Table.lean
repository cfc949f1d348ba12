/-!
# Tables

Finite maps as lists of pairs, in the order in which the keys came. Of two pairs with
one key the first counts; `set` makes no second one.
-/

namespace StyleBatch

abbrev Table (κ ν : Type) := List (κ × ν)

namespace Table

variable {κ ν : Type} [DecidableEq κ]

/-- The value of a key. -/
def get? (table : Table κ ν) (key : κ) : Option ν :=
  match table with
  | [] => none
  | (k, v) :: rest => if k = key then some v else get? rest key

def has (table : Table κ ν) (key : κ) : Bool :=
  (get? table key).isSome

/-- Gives a key a value, at the end if the key is new. -/
def set (table : Table κ ν) (key : κ) (value : ν) : Table κ ν :=
  match table with
  | [] => [(key, value)]
  | (k, v) :: rest => if k = key then (k, value) :: rest else (k, v) :: set rest key value

/-- The keys in the order in which they came. -/
def keys (table : Table κ ν) : List κ :=
  table.map Prod.fst

end Table

end StyleBatch
