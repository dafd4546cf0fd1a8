import CodeGraph.Scan.Survey
import CodeGraph.Time
import CodeGraph.Web.Message

/-! What a run works with: files, the web, settings and a clock. -/
namespace CodeGraph

/-- The means of a run, as actions. -/
structure Host (m : Type → Type) where
  /-- Whether there is something at a path. -/
  hasItem : String → m Bool
  /-- Whether there is a folder at a path. -/
  hasFolder : String → m Bool
  /-- Reads a file. -/
  read : String → m (Except DiskError ByteArray)
  /-- Writes a file. -/
  write : String → ByteArray → m (Except DiskError Unit)
  /-- Makes a folder and those it stands in. -/
  makeFolders : String → m (Except DiskError Unit)
  /-- Removes a folder with all that it holds. -/
  removeFolder : String → m (Except DiskError Unit)
  /-- Looks at a folder; none if there is no folder at the path. -/
  survey : String → m (Option Survey)
  /-- Reads the file of a name in the nearest folder that has one, from the current one upwards. -/
  readNearest : String → m (Option ByteArray)
  /-- Sends a request; none if it cannot be delivered. -/
  send : Web.Request → m (Option Web.Response)
  /-- The value of a setting. -/
  setting : String → m (Option String)
  /-- The current time. -/
  now : m Time
  /-- The seconds that the run has taken. -/
  elapsed : m Nat

namespace Host

def readText [Monad m] (host : Host m) (path : String) : m (Except DiskError String) := do
  match ← host.read path with
  | .error error => return .error error
  | .ok bytes =>
    match String.fromUTF8? bytes with
    | some text => return .ok text
    | none => return .error .notText

end Host

end CodeGraph
