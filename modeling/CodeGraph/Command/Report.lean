import CodeGraph.Graph.Json
import CodeGraph.Json.Printer
import CodeGraph.Json.Value

/-! Reports of analyses. -/
namespace CodeGraph

/-- A report: what is known of the repository, whether the graph was kept from an earlier analysis,
and the graph. -/
structure Report where
  repository? : Option Json
  cached : Bool
  graph : Graph
  deriving Inhabited

namespace Report

def toJson (report : Report) : Json :=
  Json.sorted <| .ofMembers
    [("repository", report.repository?.getD .null), ("cached", .bool report.cached),
      ("graph", report.graph.toJson)]

def toText (report : Report) : String := report.toJson.pretty

end Report

end CodeGraph
