import CodeGraph.Analysis.Resolution
import CodeGraph.Graph.Health
import CodeGraph.Outline.Basic

/-! Putting the outlines of files together into one graph. -/
namespace CodeGraph

structure ResolvedOutline where
  outline : Outline
  imports : List Resolution
  deriving DecidableEq, Inhabited, Repr

namespace ResolvedOutline

def ofOutline (paths : PathTable) (outline : Outline) : ResolvedOutline :=
  ⟨outline, outline.imports.map (Resolution.ofSpecifier paths outline.file)⟩

/-- The nodes of a file: itself, its classes and its functions. -/
def nodes (file : ResolvedOutline) : List Node :=
  let path := file.outline.file
  Node.file path (Path.fileName path) file.outline.lines ::
    (file.outline.types.map fun type => Node.type path type.name type.methods) ++
    (file.outline.functions.map fun function => Node.function path function.name function.complexity)

/-- The edges of a file: its imports, its inheritance and its calls. -/
def edges (file : ResolvedOutline) : List Edge :=
  (file.imports.map fun resolution => ⟨file.outline.file, resolution.target, .imports⟩) ++
    file.outline.inheritance ++ file.outline.calls

end ResolvedOutline

/-- The graph of some files: all nodes, then all edges, then complexity and health. -/
def Graph.assemble (policy : HealthPolicy) (files : List ResolvedOutline) : Graph :=
  let builder := (files.flatMap (·.nodes)).foldl .upsert GraphBuilder.empty
  let builder := (files.flatMap (·.edges)).foldl .addEdge builder
  (builder.rollUp.scoreHealth policy).build

end CodeGraph
