import Pageweave.Text.Basic

/-!
# TOML values and tables

A value may be written like a number and yet stand for none, for instance because it is too large.
Such a value is kept as it is written; it is a mistake only where something is read from it.

A table remembers how it came about, because that decides who may still add to it. A table in
braces is complete. A table with a header takes further members only below that header. A table
that only dotted keys have opened takes members from dotted keys, and one that was only mentioned
in longer headers may still get a header of its own.

`Table.alter` walks a path of keys through a table and makes a change at its end, opening the
tables that are missing. In an array of tables it goes into the last one.
-/

namespace Pageweave.Toml

/-- How a table came about. -/
inductive Origin where
  /-- By a header, or as an element of an array of tables, or as the whole text. -/
  | header
  /-- As a step in the path of a header. -/
  | mention
  /-- As a step in a dotted key. -/
  | dotted
  /-- In braces. -/
  | braces
deriving DecidableEq, Repr

/-- A value. -/
inductive Value where
  /-- A text. -/
  | string (text : Text)
  /-- An integer. -/
  | integer (value : Int)
  /-- A floating-point number, as written. -/
  | float (written : Text)
  /-- What is written like a number but stands for none, as written. -/
  | illegible (written : Text)
  /-- A truth value. -/
  | boolean (value : Bool)
  /-- A date, a time or both, as written. -/
  | moment (written : Text)
  /-- A sequence of values. -/
  | array (items : List Value)
  /-- A table, with its members in the order of their keys' first occurrences. -/
  | table (origin : Origin) (members : List (Text × Value))
  /-- An array of tables, each with its header. -/
  | tables (elements : List (List (Text × Value)))

mutual

/-- Whether everything in a value that is written like a number stands for one. -/
def Value.isLegible : Value → Bool
  | .string _ | .integer _ | .float _ | .boolean _ | .moment _ => true
  | .illegible _ => false
  | .array items => itemsLegible items
  | .table _ members => membersLegible members
  | .tables elements => elementsLegible elements

/-- Whether all items of an array are legible. -/
def Value.itemsLegible : List Value → Bool
  | [] => true
  | item :: items => item.isLegible && itemsLegible items

/-- Whether all members of a table are legible. -/
def Value.membersLegible : List (Text × Value) → Bool
  | [] => true
  | (_, value) :: members => value.isLegible && membersLegible members

/-- Whether all tables in an array of tables are legible. -/
def Value.elementsLegible : List (List (Text × Value)) → Bool
  | [] => true
  | members :: elements => membersLegible members && elementsLegible elements

end

/-- The members of a table. -/
abbrev Table := List (Text × Value)

namespace Table

/-- The value under a key. -/
def find? (key : Text) (table : Table) : Option Value :=
  table.lookup key

/-- The table with another value under a key that it has. -/
def replace (key : Text) (value : Value) (table : Table) : Table :=
  table.map fun (other, present) => if other = key then (other, value) else (other, present)

/-- The table with a value under a new key. -/
def append (key : Text) (value : Value) (table : Table) : Table :=
  table ++ [(key, value)]

/-- The table, of the given origin, after a change at the end of a path. A path in a dotted key
leads through no table that has a header, and opens tables as dotted keys do. -/
def alter (dotted : Bool) (change : Origin → Table → Option Table) :
    (path : List Text) → Origin → Table → Option Table
  | [], origin, table => change origin table
  | key :: path, _, table =>
      match table.find? key with
      | none => do
          let opened := if dotted then Origin.dotted else .mention
          let inner ← alter dotted change path opened []
          return table.append key (.table opened inner)
      | some (.table origin inner) =>
          if origin = .braces || (dotted && origin = .header) then none
          else do
            let inner ← alter dotted change path origin inner
            return table.replace key (.table origin inner)
      | some (.tables elements) => do
          let last ← elements.getLast?
          let last ← alter dotted change path .header last
          return table.replace key (.tables (elements.dropLast ++ [last]))
      | some _ => none

/-- The table with a value under a dotted key, given as the path before its last part and that
part. -/
def assign (path : List Text) (key : Text) (value : Value) : Origin → Table → Option Table :=
  alter true (fun origin table =>
    if origin = .dotted ↔ path = [] then none
    else if (table.find? key).isSome then none
    else some (table.append key value)) path

/-- The table with a header for the table at a path and a key. -/
def openTable (path : List Text) (key : Text) : Table → Option Table :=
  alter false (fun _ table =>
    match table.find? key with
    | none => some (table.append key (.table .header []))
    | some (.table .mention inner) => some (table.replace key (.table .header inner))
    | some _ => none) path .header

/-- The table with one more element in the array of tables at a path and a key. -/
def openElement (path : List Text) (key : Text) : Table → Option Table :=
  alter false (fun _ table =>
    match table.find? key with
    | none => some (table.append key (.tables [[]]))
    | some (.tables elements) => some (table.replace key (.tables (elements ++ [[]])))
    | some _ => none) path .header

end Table

end Pageweave.Toml
