/-! Values of the configuration format and the tables they stand in. -/
namespace CodeGraph.Toml

/-- How a table came to be: written between braces, opened by a header, implied by a longer header,
or made by a key with dots. -/
inductive Origin where
  | inline
  | header
  | implied
  | dotted
  deriving DecidableEq, Inhabited, Repr

/-- A value. Dates and times are known by their form only. -/
inductive Value where
  | text (value : String)
  | integer (value : Int)
  | double (value : Float)
  | truth (value : Bool)
  | moment
  | array (items : List Value)
  | table (origin : Origin) (entries : List (String × Value))
  | tables (items : List (List (String × Value)))
  deriving Inhabited

abbrev Entries := List (String × Value)

namespace Entries

def set (entries : Entries) (key : String) (value : Value) : Entries :=
  if entries.any (·.1 = key) then
    entries.map fun entry => if entry.1 = key then (key, value) else entry
  else entries ++ [(key, value)]

/-- Changes the table that a path leads to. Tables on the way that are missing are made. A key with
dots does not lead into a table with a header of its own, and nothing leads into one between
braces. -/
def alter (dotted : Bool) (change : Origin → Entries → Option Entries) :
    List String → Origin → Entries → Option Entries
  | [], origin, entries => change origin entries
  | key :: rest, _, entries => do
    match entries.lookup key with
    | none =>
      let origin := if dotted then .dotted else .implied
      let child ← alter dotted change rest origin []
      some (entries.set key (.table origin child))
    | some (.table origin child) =>
      if origin = .inline ∨ (dotted ∧ origin = .header) then none
      else
        let child ← alter dotted change rest origin child
        some (entries.set key (.table origin child))
    | some (.tables items) =>
      let child ← alter dotted change rest .header (items.getLastD [])
      some (entries.set key (.tables (items.dropLast ++ [child])))
    | some _ => none

/-- Adds a value under a key with dots. A table that was not made by such keys takes no part in
it. -/
def add (path : List String) (value : Value) (origin : Origin) (entries : Entries) :
    Option Entries :=
  match path.getLast? with
  | none => none
  | some key =>
    alter true (fun origin entries =>
      if path.length > 1 ∧ origin ≠ .dotted then none
      else if entries.any (·.1 = key) then none
      else some (entries ++ [(key, value)])) path.dropLast origin entries

/-- Opens the table of a header. Only a table that a longer header implied may be there already. -/
def openTable (path : List String) (entries : Entries) : Option Entries :=
  match path.getLast? with
  | none => none
  | some key =>
    alter false (fun _ entries =>
      match entries.lookup key with
      | none => some (entries ++ [(key, .table .header [])])
      | some (.table .implied child) => some (entries.set key (.table .header child))
      | some _ => none) path.dropLast .header entries

def openItem (path : List String) (entries : Entries) : Option Entries :=
  match path.getLast? with
  | none => none
  | some key =>
    alter false (fun _ entries =>
      match entries.lookup key with
      | none => some (entries ++ [(key, .tables [[]])])
      | some (.tables items) => some (entries.set key (.tables (items ++ [[]])))
      | some _ => none) path.dropLast .header entries

/-- Adds a value under a key with dots to the table that a header opened. -/
def addBelow (header path : List String) (value : Value) (entries : Entries) : Option Entries :=
  alter false (fun origin entries => add path value origin entries) header .header entries

end Entries

end CodeGraph.Toml
