import CodeGraph.Analysis.Run
import CodeGraph.Config.Load
import CodeGraph.Repository.Client

/-! Why a command fails. -/
namespace CodeGraph

inductive Failure where
  | disk (error : DiskError)
  | config (error : ConfigError)
  | noTarget (target : String)
  | noFolder (path : String)
  | escaped (path : String)
  | noTree (path : String)
  | malformedTree (fault : Json.Fault)
  | analysis (error : AnalysisError)
  | remote (error : Repository.RemoteError)
  | unwritable (path : String)
  deriving DecidableEq, Inhabited, Repr

namespace Failure

def ofConfigLoad : ConfigLoadError → Failure
  | .disk error => disk error
  | .config error => config error

/-- The failure in words, where the words are its own. -/
def message? : Failure → Option String
  | disk error => some error.message
  | config error => error.message?
  | noTarget target => some ("invalid repository locator: " ++ target)
  | noFolder path => some (path ++ " is not a directory")
  | escaped path => some (path ++ " escaped the scan root")
  | noTree path => some ("reading file tree " ++ path)
  | malformedTree _ => none
  | analysis error => some error.message
  | remote error => some error.message
  | unwritable path => some ("writing graph to " ++ path)

end Failure

end CodeGraph
