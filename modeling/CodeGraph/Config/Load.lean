import CodeGraph.Config.Reader
import CodeGraph.Host.Basic

/-! Loading the configuration of a folder. -/
namespace CodeGraph

inductive ConfigLoadError where
  | disk (error : DiskError)
  | config (error : ConfigError)
  deriving DecidableEq, Inhabited, Repr

namespace Config

/-- Loads the configuration of a folder. Where there is none, the default settings hold. -/
def load [Monad m] (host : Host m) (folder : String) : m (Except ConfigLoadError Config) := do
  let path := Path.joined folder fileName
  if ← host.hasItem path then
    match ← host.readText path with
    | .error error => return .error (.disk error)
    | .ok text => return (ofText text).mapError .config
  else return .ok default

end Config

end CodeGraph
