import CodeGraph.Path
import CodeGraph.Tree.Table

/-! Where imports lead. -/
namespace CodeGraph

/-- Where an import leads: to a file of the tree, or out of it. -/
inductive Resolution where
  | inside (path : String)
  | outside (specifier : String)
  deriving DecidableEq, Inhabited, Repr

namespace Resolution

def target : Resolution → String
  | inside path => path
  | outside specifier => specifier

/-- What is tried after a path, in this order. -/
def suffixes : List String := ["", ".js", ".jsx", ".ts", ".tsx", "/index.js", "/index.ts"]

/-- What is tried after a path that names a folder. -/
def folderSuffixes : List String := ["/index.js", "/index.ts"]

/-- The path that a relative specifier means in a file. -/
def base (specifier importer : String) : String :=
  Path.normalize (Path.folder importer ++ "/" ++ specifier)

def candidates (specifier importer : String) : List String :=
  let suffixes := if specifier.toList.getLast? = some '/' then folderSuffixes else suffixes
  suffixes.map fun suffix => Path.dropSlashes (base specifier importer ++ suffix)

/-- Where a specifier leads. One that does not begin with a dot leads out of the tree, any other
to the first candidate that is there. -/
def ofSpecifier (paths : PathTable) (importer specifier : String) : Resolution :=
  if specifier.toList.head? = some '.' then
    match (candidates specifier importer).find? paths.contains with
    | some path => inside path
    | none => outside specifier
  else outside specifier

end Resolution

end CodeGraph
