import Std.Data.HashMap

/-! Positions of paths in a list of files. -/
namespace CodeGraph

/-- The position of each path. -/
structure PathTable where
  index : Std.HashMap String Nat

namespace PathTable

def empty : PathTable := ⟨∅⟩

/-- Adds a path; a path that is there already keeps its position. -/
def insert (table : PathTable) (path : String) (position : Nat) : PathTable :=
  ⟨table.index.insertIfNew path position⟩

def contains (table : PathTable) (path : String) : Bool := table.index.contains path

def position? (table : PathTable) (path : String) : Option Nat := table.index[path]?

def size (table : PathTable) : Nat := table.index.size

def isEmpty (table : PathTable) : Bool := table.index.isEmpty

/-- Adds paths that stand at positions from `start` on. -/
def insertFrom (start : Nat) : List String → PathTable → PathTable
  | [], table => table
  | path :: rest, table => insertFrom (start + 1) rest (table.insert path start)

/-- The positions of the paths of a list: a repeated path stands where it stands first. -/
def ofList (paths : List String) : PathTable := insertFrom 0 paths empty

end PathTable

end CodeGraph
