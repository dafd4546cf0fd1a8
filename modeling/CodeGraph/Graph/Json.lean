import CodeGraph.Graph.Basic
import CodeGraph.Json.Decode

/-! Graphs as JSON. -/
namespace CodeGraph

namespace NodeKind

def word : NodeKind → String
  | file => "file"
  | type => "class"
  | function => "function"
  | package => "package"

def decode : Json.Decoder NodeKind :=
  Json.Decode.word
    [("file", file), ("class", type), ("function", function), ("package", package)]

end NodeKind

namespace Relation

def word : Relation → String
  | imports => "import"
  | inherits => "extends"
  | calls => "calls"

def decode : Json.Decoder Relation :=
  Json.Decode.word [("import", imports), ("extends", inherits), ("calls", calls)]

end Relation

namespace Node

/-- A node as JSON: the health only if it is known, the methods only if there are any. -/
def toJson (node : Node) : Json :=
  .ofMembers <|
    [("id", .string node.id), ("label", .string node.label), ("type", .string node.kind.word),
      ("owningFile", .string node.owner), ("linesOfCode", .ofNat node.lines.toNat),
      ("complexity", .ofNat node.complexity.toNat)] ++
    (match node.health? with
      | some health => [("healthScore", .ofNat health.toNat)]
      | none => []) ++
    (if node.methods.isEmpty then [] else [("methods", .ofList (node.methods.map .string))])

structure Draft where
  id? : Option String := none
  label? : Option String := none
  kind? : Option NodeKind := none
  owner? : Option String := none
  lines? : Option UInt64 := none
  complexity? : Option UInt32 := none
  health? : Option (Option UInt8) := none
  methods? : Option (List String) := none

open Json.Decode in
def draftFields : List (Slot Draft) :=
  [{ names := ["id"], isSet := (·.id?.isSome)
     read := fun depth json draft => return { draft with id? := some (← string depth json) } },
   { names := ["label"], isSet := (·.label?.isSome)
     read := fun depth json draft => return { draft with label? := some (← string depth json) } },
   { names := ["type"], isSet := (·.kind?.isSome)
     read := fun depth json draft =>
       return { draft with kind? := some (← NodeKind.decode depth json) } },
   { names := ["owningFile"], isSet := (·.owner?.isSome)
     read := fun depth json draft => return { draft with owner? := some (← string depth json) } },
   { names := ["linesOfCode"], isSet := (·.lines?.isSome)
     read := fun depth json draft => return { draft with lines? := some (← uint64 depth json) } },
   { names := ["complexity"], isSet := (·.complexity?.isSome)
     read := fun depth json draft =>
       return { draft with complexity? := some (← uint32 depth json) } },
   { names := ["healthScore"], isSet := (·.health?.isSome), optional := true
     read := fun depth json draft =>
       return { draft with health? := some (← optional uint8 depth json) } },
   { names := ["methods"], isSet := (·.methods?.isSome), optional := true
     read := fun depth json draft =>
       return { draft with methods? := some (← list string depth json) } }]

open Json.Decode in
def decode : Json.Decoder Node := fun depth json => do
  let draft ← record draftFields {} depth json
  return {
    id := ← required draft.id?
    label := ← required draft.label?
    kind := ← required draft.kind?
    owner := ← required draft.owner?
    lines := ← required draft.lines?
    complexity := ← required draft.complexity?
    health? := draft.health?.join
    methods := draft.methods?.getD [] }

end Node

namespace Edge

def toJson (edge : Edge) : Json :=
  .ofMembers [("source", .string edge.source), ("target", .string edge.target),
    ("relation", .string edge.relation.word)]

structure Draft where
  source? : Option String := none
  target? : Option String := none
  relation? : Option Relation := none

open Json.Decode in
def draftFields : List (Slot Draft) :=
  [{ names := ["source"], isSet := (·.source?.isSome)
     read := fun depth json draft => return { draft with source? := some (← string depth json) } },
   { names := ["target"], isSet := (·.target?.isSome)
     read := fun depth json draft => return { draft with target? := some (← string depth json) } },
   { names := ["relation"], isSet := (·.relation?.isSome)
     read := fun depth json draft =>
       return { draft with relation? := some (← Relation.decode depth json) } }]

open Json.Decode in
def decode : Json.Decoder Edge := fun depth json => do
  let draft ← record draftFields {} depth json
  return {
    source := ← required draft.source?
    target := ← required draft.target?
    relation := ← required draft.relation? }

end Edge

namespace Graph

def toJson (graph : Graph) : Json :=
  .ofMembers [("nodes", .ofList (graph.nodes.map (·.toJson))),
    ("edges", .ofList (graph.edges.map (·.toJson)))]

structure Draft where
  nodes? : Option (List Node) := none
  edges? : Option (List Edge) := none

open Json.Decode in
def draftFields : List (Slot Draft) :=
  [{ names := ["nodes"], isSet := (·.nodes?.isSome)
     read := fun depth json draft =>
       return { draft with nodes? := some (← list Node.decode depth json) } },
   { names := ["edges"], isSet := (·.edges?.isSome)
     read := fun depth json draft =>
       return { draft with edges? := some (← list Edge.decode depth json) } }]

open Json.Decode in
def decode : Json.Decoder Graph := fun depth json => do
  let draft ← record draftFields {} depth json
  return { nodes := ← required draft.nodes?, edges := ← required draft.edges? }

end Graph

end CodeGraph
