import CodeGraph.Analysis.Assembly
import CodeGraph.Config.Basic
import CodeGraph.Outline.Extract
import CodeGraph.Text.Utf8
import CodeGraph.Tree.Flat

/-! Analysing the files of a tree. -/
namespace CodeGraph

structure FetchError where
  message : String
  deriving DecidableEq, Inhabited, Repr

/-- Where the contents of files come from, whether one has to wait for them, and how many seconds the
analysis has taken. -/
structure Fetcher (m : Type → Type) where
  fetch : Entry → m (Except FetchError ByteArray)
  elapsed : m Nat
  waits : Bool := false

inductive AnalysisError where
  | emptyTree
  | timedOut (seconds : Nat)
  deriving DecidableEq, Inhabited, Repr

namespace AnalysisError

def message : AnalysisError → String
  | emptyTree => "file tree is empty or contains no files"
  | timedOut 0 => "analysis timed out after 0ns"
  | timedOut seconds => "analysis timed out after " ++ toString seconds ++ "s"

end AnalysisError

namespace Analysis

abbrev Parse := String → Except ParseError ParsedSource

def outlineOfBytes (parse : Parse) (scope : ComplexityScope) (path : String) (bytes : ByteArray) :
    Outline :=
  let content := Text.decodeLossy bytes
  match Outline.ofSource parse scope path content with
  | .ok outline => outline
  | .error _ => .opaqueFile path (Outline.countLines content) .parseFailed

/-- The outline of a script, given what was fetched for it. -/
def outlineOfFetched (parse : Parse) (scope : ComplexityScope) (file : Entry) :
    Except FetchError ByteArray → Outline
  | .ok bytes => outlineOfBytes parse scope file.path bytes
  | .error _ => .opaqueFile file.path 0 .fetchFailed

/-- The outline of a file. Only scripts are fetched. -/
def outlineOf [Monad m] (parse : Parse) (scope : ComplexityScope) (fetcher : Fetcher m)
    (file : Entry) : m Outline :=
  if file.hasScriptName then outlineOfFetched parse scope file <$> fetcher.fetch file
  else pure (.opaqueFile file.path file.size .notScript)

def graphOf (policy : HealthPolicy) (paths : PathTable) (outlines : List Outline) : Graph :=
  .assemble policy (outlines.map (ResolvedOutline.ofOutline paths))

/-- Whether one has to wait for the outline of a file. -/
def mustWait (waits : Bool) (outline : Outline) : Bool :=
  match outline.status with
  | .notScript => false
  | .fetchFailed => waits
  | _ => true

/-- The limit that has passed while one waited, in seconds. Where there is nothing to wait for, no limit
is looked at, not even one of no time at all. -/
def overrun? [Monad m] (config : Config) (fetcher : Fetcher m) (outlines : List Outline) :
    m (Option Nat) :=
  if outlines.any (mustWait fetcher.waits) then do
    let elapsed ← fetcher.elapsed
    return config.timeout.filter (· ≤ elapsed)
  else return none

/-- Analyses the files of a tree in order, unless this takes too long. -/
def run [Monad m] (parse : Parse) (config : Config) (fetcher : Fetcher m) (tree : FileTree) :
    m (Except AnalysisError Graph) := do
  let flat := tree.flatten config.maxDepth
  if flat.files.isEmpty then return .error .emptyTree
  let outlines ← flat.files.mapM (outlineOf parse config.scope fetcher)
  match ← overrun? config fetcher outlines with
  | some limit => return .error (.timedOut limit)
  | none => return .ok (graphOf config.health flat.paths outlines)

end Analysis

namespace Fetcher

def ofContents (contents : List (String × ByteArray)) : Fetcher Id where
  fetch file :=
    match contents.reverse.find? (·.1 = file.path) with
    | some (_, bytes) => .ok bytes
    | none => .error ⟨"No content for " ++ file.path⟩
  elapsed := (0 : Nat)

end Fetcher

end CodeGraph
