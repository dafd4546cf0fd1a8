import CodeGraph.Path

/-! Code graphs: files, their classes and functions, and how they relate. -/
namespace CodeGraph

/-- What a node stands for. A package is an end of an edge that no file accounts for. -/
inductive NodeKind where
  | file
  | type
  | function
  | package
  deriving DecidableEq, Inhabited, Repr

/-- A node. The health is known for files and packages only, the methods for classes. -/
structure Node where
  id : String
  label : String
  kind : NodeKind
  owner : String
  lines : UInt64
  complexity : UInt32
  health? : Option UInt8
  methods : List String
  deriving DecidableEq, Inhabited, Repr

namespace Node

def typeId (path name : String) : String := path ++ "::class::" ++ name

def functionId (path name : String) : String := path ++ "::fn::" ++ name

def file (path label : String) (lines : UInt64) : Node :=
  { id := path, label, kind := .file, owner := path, lines, complexity := 0, health? := none
    methods := [] }

def type (path name : String) (methods : List String) : Node :=
  { id := typeId path name, label := name, kind := .type, owner := path, lines := 0
    complexity := 0, health? := none, methods }

def function (path name : String) (complexity : UInt32) : Node :=
  { id := functionId path name, label := name, kind := .function, owner := path, lines := 0
    complexity, health? := none, methods := [] }

def package (id : String) : Node :=
  { id, label := id, kind := .package, owner := "", lines := 0, complexity := 0
    health? := some 100, methods := [] }

end Node

inductive Relation where
  | imports
  | inherits
  | calls
  deriving DecidableEq, Inhabited, Repr

structure Edge where
  source : String
  target : String
  relation : Relation
  deriving DecidableEq, Inhabited, Repr

structure Graph where
  nodes : List Node
  edges : List Edge
  deriving DecidableEq, Inhabited, Repr

namespace Graph

def node? (graph : Graph) (id : String) : Option Node := graph.nodes.find? (·.id = id)

def edgesFrom (graph : Graph) (id : String) : List Edge := graph.edges.filter (·.source = id)

def nodesOfKind (graph : Graph) (kind : NodeKind) : List Node :=
  graph.nodes.filter (·.kind = kind)

def hasEdge (graph : Graph) (edge : Edge) : Bool := graph.edges.contains edge

end Graph

end CodeGraph
