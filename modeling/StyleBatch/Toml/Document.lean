import StyleBatch.Json
import StyleBatch.Table

/-!
# TOML documents

A document is a tree of tables that grows by headers and by keys with values. How a table
came about decides what may still be done to it: dotted keys grow only tables that dotted
keys made, and a header may not name a table that has a header or was made by dotted keys.
-/

namespace StyleBatch.Toml

/-- How a table came about. -/
inductive Origin where
  /-- On the way to the table of a header. -/
  | passed
  /-- By a dotted key. -/
  | dotted
  /-- By its own header. -/
  | headed
deriving DecidableEq, Repr

inductive Item where
  | value (v : Json)
  | table (origin : Origin) (members : List (Text × Item))
  | tables (items : List (List (Text × Item)))

abbrev Members := List (Text × Item)

mutual

/-- An item as a value. -/
def Item.toJson : Item → Json
  | .value v => v
  | .table _ members => .object (membersToJson members)
  | .tables items => .array (tablesToJson items)

def membersToJson : List (Text × Item) → List (Text × Json)
  | [] => []
  | (key, item) :: rest => (key, item.toJson) :: membersToJson rest

def tablesToJson : List (List (Text × Item)) → List Json
  | [] => []
  | members :: rest => .object (membersToJson members) :: tablesToJson rest

end

/-- Changes the table at the end of a path. Tables that are missing on the way are made,
and of a list of tables the last is taken. -/
def descend (dotted : Bool) (change : Origin → Members → Option Members) :
    List Text → Origin → Members → Option Members
  | [], origin, members => change origin members
  | key :: path, _, members =>
    match Table.get? members key with
    | none =>
      let origin : Origin := if dotted then .dotted else .passed
      (descend dotted change path origin []).map fun inner =>
        Table.set members key (.table origin inner)
    | some (.table origin inner) =>
      if dotted && origin == .headed then none
      else
        (descend dotted change path origin inner).map fun inner =>
          Table.set members key (.table origin inner)
    | some (.tables items) =>
      match items.getLast? with
      | some last =>
        (descend dotted change path .headed last).map fun last =>
          Table.set members key (.tables (items.dropLast ++ [last]))
      | none => none
    | some (.value _) => none

/-- Gives a dotted key a value, counted from a table. -/
def assign (path : List Text) (key : Text) (v : Json) (members : Members) : Option Members :=
  descend true (fun origin members =>
    if (!path.isEmpty && origin != .dotted) || Table.has members key then none
    else some (Table.set members key (.value v))) path .headed members

/-- A document and the path of the table that keys go to. -/
structure Document where
  members : Members := []
  current : List Text := []

namespace Document

/-- A dotted key with its value. -/
def assign (path : List Text) (key : Text) (v : Json) (d : Document) : Option Document := do
  let members ← descend false (fun _ members => Toml.assign path key v members) d.current
    .headed d.members
  return { d with members }

/-- A table header. -/
def openTable (path : List Text) (key : Text) (d : Document) : Option Document := do
  let members ← descend false (fun _ members =>
    match Table.get? members key with
    | none => some (Table.set members key (.table .headed []))
    | some (.table .passed inner) => some (Table.set members key (.table .headed inner))
    | some _ => none) path .headed d.members
  return ⟨members, path ++ [key]⟩

/-- The header of a further table in a list of tables. -/
def appendTable (path : List Text) (key : Text) (d : Document) : Option Document := do
  let members ← descend false (fun _ members =>
    match Table.get? members key with
    | none => some (Table.set members key (.tables [[]]))
    | some (.tables items) => some (Table.set members key (.tables (items ++ [[]])))
    | some _ => none) path .headed d.members
  return ⟨members, path ++ [key]⟩

def toJson (d : Document) : Json :=
  .object (membersToJson d.members)

end Document

end StyleBatch.Toml
