import Disasm.Toml.Value

/-!
# TOML tables

Tables grow by assignments and headers. A key is assigned once, a table is defined by one header,
and a table that is complete is not added to.
-/

namespace Disasm.Toml.Table

/-- Changes the value of a key, or gives it one, unless the change is refused. -/
def alter (key : String) (change : Option Value → Option Value) : Table → Option Table
  | [] => (change none).map fun value => [(key, value)]
  | (other, value) :: rest =>
    if other = key then (change (some value)).map fun value => (other, value) :: rest
    else (alter key change rest).map ((other, value) :: ·)

/-- Assigns a value to a key that has none. -/
def assign (key : String) (value : Value) : Table → Option Table :=
  alter key fun
    | none => some value
    | some _ => none

/-- Assigns a value to a dotted key. On its way it adds to the tables of other dotted keys, and
takes those that only the path of a header made for its own. It goes through the latest of an
array of tables, but does not add a key to that table itself. -/
def assignPath (value : Value) : (path : List String) → Table → Option Table
  | [], _ => none
  | [key], table => assign key value table
  | key :: path, table =>
    table.alter key fun
      | none => (assignPath value path []).map (.table .dotted)
      | some (.table .dotted members) => (assignPath value path members).map (.table .dotted)
      | some (.table .path members) => (assignPath value path members).map (.table .dotted)
      | some (.tables latest earlier) =>
        if path.length ≤ 1 then none
        else (assignPath value path latest).map (.tables · earlier)
      | some _ => none

/-- Changes the table at a path, where an array of tables stands for its latest one. Tables that
are missing are made. -/
def within (change : Table → Option Table) : (path : List String) → Table → Option Table
  | [], table => change table
  | key :: path, table =>
    table.alter key fun
      | none => (within change path []).map (.table .path)
      | some (.table .inline _) => none
      | some (.table kind members) => (within change path members).map (.table kind)
      | some (.tables latest earlier) => (within change path latest).map (.tables · earlier)
      | some _ => none

/-- Defines the table of a header. -/
def define (path : List String) : Table → Option Table :=
  match path.getLast? with
  | none => fun _ => none
  | some key =>
    within (alter key fun
      | none => some (.table .header [])
      | some (.table .path members) => some (.table .header members)
      | some _ => none) path.dropLast

/-- Adds a table to the array of a header. -/
def append (path : List String) : Table → Option Table :=
  match path.getLast? with
  | none => fun _ => none
  | some key =>
    within (alter key fun
      | none => some (.tables [] [])
      | some (.tables latest earlier) => some (.tables [] (latest :: earlier))
      | some _ => none) path.dropLast

end Disasm.Toml.Table
