import CodeGraph.Graph.Basic
import CodeGraph.Script.Dialect

/-! What one file brings into the graph. -/
namespace CodeGraph

/-- A class: its name, its members, and the class it extends if that is a plain name. -/
structure TypeOutline where
  name : String
  methods : List String
  superclass? : Option String
  deriving DecidableEq, Inhabited, Repr

structure FunctionOutline where
  name : String
  complexity : UInt32
  deriving DecidableEq, Inhabited, Repr

/-- How far a file was read. -/
inductive OutlineStatus where
  | parsed (dialect : Dialect)
  | parseFailed
  | fetchFailed
  | notScript
  deriving DecidableEq, Inhabited, Repr

/-- What one file brings into the graph, each list in the order of the source. -/
structure Outline where
  file : String
  lines : UInt64
  imports : List String
  types : List TypeOutline
  functions : List FunctionOutline
  inheritance : List Edge
  calls : List Edge
  status : OutlineStatus
  deriving DecidableEq, Inhabited, Repr

namespace Outline

/-- A file whose content is not known. -/
def opaqueFile (file : String) (lines : UInt64) (status : OutlineStatus) : Outline :=
  { file, lines, imports := [], types := [], functions := [], inheritance := [], calls := []
    status }

/-- The number of lines of a text: one more than the line ends. -/
def countLines (content : String) : UInt64 :=
  UInt64.ofNat (content.toList.count '\n' + 1)

end Outline

end CodeGraph
