import CodeGraph.Graph.Basic
import Std.Data.HashMap

/-! Building a graph out of nodes and edges that come in any order. -/
namespace CodeGraph

/-- A graph under construction. Nodes stand in the order in which their ids were first mentioned,
`index` gives the place of each id, and edges join places. -/
structure GraphBuilder where
  nodes : Array Node
  index : Std.HashMap String Nat
  edges : Array (Nat × Nat × Relation)

namespace GraphBuilder

def empty : GraphBuilder := ⟨#[], ∅, #[]⟩

instance : Inhabited GraphBuilder := ⟨empty⟩

/-- Stores a node. One that is stored under its id already is replaced and keeps its place. -/
def upsert (builder : GraphBuilder) (node : Node) : GraphBuilder :=
  match builder.index[node.id]? with
  | some place => { builder with nodes := builder.nodes.setIfInBounds place node }
  | none =>
    { builder with
      nodes := builder.nodes.push node
      index := builder.index.insert node.id builder.nodes.size }

/-- Stores a package under an id that is not known yet. -/
def mention (builder : GraphBuilder) (id : String) : GraphBuilder :=
  if builder.index.contains id then builder else builder.upsert (.package id)

def place? (builder : GraphBuilder) (id : String) : Option Nat := builder.index[id]?

/-- Adds an edge. Ends that are not known yet become packages. -/
def addEdge (builder : GraphBuilder) (edge : Edge) : GraphBuilder :=
  let builder := (builder.mention edge.source).mention edge.target
  match builder.place? edge.source, builder.place? edge.target with
  | some source, some target =>
    { builder with edges := builder.edges.push (source, target, edge.relation) }
  | _, _ => builder

def contains (builder : GraphBuilder) (id : String) : Bool := builder.index.contains id

def node? (builder : GraphBuilder) (id : String) : Option Node :=
  (builder.place? id).bind (builder.nodes[·]?)

def modify (builder : GraphBuilder) (id : String) (change : Node → Node) : GraphBuilder :=
  match builder.place? id with
  | some place => { builder with nodes := builder.nodes.modify place change }
  | none => builder

def outDegree (builder : GraphBuilder) (id : String) (relation : Relation) : Nat :=
  match builder.place? id with
  | some place => builder.edges.countP fun edge => edge.1 == place && edge.2.2 == relation
  | none => 0

def edgeAt? (builder : GraphBuilder) (edge : Nat × Nat × Relation) : Option Edge := do
  let source ← builder.nodes[edge.1]?
  let target ← builder.nodes[edge.2.1]?
  return ⟨source.id, target.id, edge.2.2⟩

def build (builder : GraphBuilder) : Graph :=
  { nodes := builder.nodes.toList
    edges := builder.edges.toList.filterMap builder.edgeAt? }

def summary (builder : GraphBuilder) : String :=
  "GraphBuilder \x7b node_count: " ++ toString builder.nodes.size ++ ", edge_count: " ++
    toString builder.edges.size ++ " \x7d"

end GraphBuilder

end CodeGraph
