import CodeGraph.Graph.Builder

/-! The complexity and the health of files. -/
namespace CodeGraph

/-- The weights of what lowers the health of a file: complexity, imports, and lines per point. -/
structure HealthPolicy where
  version : UInt32
  complexityWeight : Float
  importWeight : Float
  linesPerPoint : Float
  deriving Inhabited, BEq

namespace HealthPolicy

def first : HealthPolicy :=
  { version := 1, complexityWeight := 6.0, importWeight := 8.0, linesPerPoint := 200.0 }

/-- The health of a file, from 0 to 100. A half is rounded up, and what is no number is 0. -/
def score (policy : HealthPolicy) (complexity : UInt32) (imports : Nat) (lines : UInt64) : UInt8 :=
  let raw := 100.0 - complexity.toFloat * policy.complexityWeight
    - Float.ofNat imports * policy.importWeight - lines.toFloat / policy.linesPerPoint
  let rounded := (raw + 0.5).floor
  let bounded := if rounded < 0.0 then 0.0 else if rounded > 100.0 then 100.0 else rounded
  bounded.toUInt8

end HealthPolicy

/-- The sum of two complexities, or the greatest one there is. -/
def addComplexity (a b : UInt32) : UInt32 :=
  if a.toNat + b.toNat < UInt32.size then a + b else UInt32.ofNat (UInt32.size - 1)

namespace GraphBuilder

/-- Adds complexity to a file; an id that is no file is left alone. -/
def contribute (builder : GraphBuilder) (owner : String) (complexity : UInt32) : GraphBuilder :=
  match builder.node? owner with
  | some node =>
    if node.kind = .file then
      builder.modify owner fun node =>
        { node with complexity := addComplexity node.complexity complexity }
    else builder
  | none => builder

/-- Adds the complexity of each function to the file that owns it. -/
def rollUp (builder : GraphBuilder) : GraphBuilder :=
  let functions := builder.nodes.toList.filter (·.kind = .function)
  functions.foldl (fun builder node => builder.contribute node.owner node.complexity) builder

def healthOf (builder : GraphBuilder) (policy : HealthPolicy) (node : Node) : UInt8 :=
  policy.score node.complexity (builder.outDegree node.id .imports) node.lines

def scoreHealth (builder : GraphBuilder) (policy : HealthPolicy) : GraphBuilder :=
  let files := builder.nodes.toList.filter (·.kind = .file)
  let scores := files.map fun node => (node.id, builder.healthOf policy node)
  scores.foldl (fun builder (id, health) =>
    builder.modify id fun node => { node with health? := some health }) builder

end GraphBuilder

end CodeGraph
