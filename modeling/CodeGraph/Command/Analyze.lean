import CodeGraph.Analysis.Source
import CodeGraph.Cache.Store
import CodeGraph.Command.Arguments
import CodeGraph.Command.Failure
import CodeGraph.Command.Report
import CodeGraph.Scan.Run
import CodeGraph.Settings.Lookup
import CodeGraph.Tree.Json

/-! Analysing a folder, a document with a tree, or a repository. -/
namespace CodeGraph

/-- What is analysed: a folder or a repository. -/
inductive Target where
  | folder (path : String)
  | repository (locator : Repository.Locator)
  deriving DecidableEq, Inhabited, Repr

namespace Analysis

variable {m : Type → Type} [Monad m]

def reportOf (repository? : Option Json) : Except AnalysisError Graph → Except Failure Report
  | .ok graph => .ok ⟨repository?, false, graph⟩
  | .error error => .error (.analysis error)

def ofFolder (parse : Parse) (host : Host m) (config : Config) (folder : String) :
    m (Except Failure Report) := do
  match ← host.survey folder with
  | none => return .error (.noFolder folder)
  | some survey =>
    match Scan.tree folder survey config.maxDepth with
    | .error path => return .error (.escaped path)
    | .ok tree => return reportOf none (← run parse config (.ofFolder host folder) tree)

def isAddress (handle : String) : Bool := handle.startsWith "http://" || handle.startsWith "https://"

def isRemote (tree : FileTree) : Bool :=
  (tree.flatten none).files.any fun file => file.handle?.any isAddress

def folderOf (path : String) : String :=
  let folder := Path.folder path
  if folder.isEmpty ∧ path.startsWith "/" then "/" else folder

/-- The setting that holds the token for requests. -/
def tokenName : String := "GITHUB_TOKEN"

/-- Analyses a tree. Where it names addresses, contents are asked for there, and else they are
found next to the document. -/
def ofTree (parse : Parse) (host : Host m) (config : Config) (path : String) (tree : FileTree) :
    m (Except Failure Report) := do
  let fetcher ←
    if isRemote tree then do
      let token? ← Settings.lookup host tokenName
      pure (Fetcher.ofWeb host token?)
    else pure (Fetcher.ofFolder host (folderOf path))
  return reportOf none (← run parse config fetcher tree)

def ofDocument (parse : Parse) (host : Host m) (config : Config) (path : String) :
    m (Except Failure Report) := do
  match ← host.readText path with
  | .error _ => return .error (.noTree path)
  | .ok text =>
    match Json.Decode.text FileTree.decode (.ofText text) with
    | .error fault => return .error (.malformedTree fault)
    | .ok tree => ofTree parse host config path tree

/-- The graph of a repository that has been kept, if it was made with the same health policy. -/
def kept? (config : Config) :
    Except CacheError (Option CachedGraph) → Option CachedGraph
  | .ok (some entry) => if entry.policyVersion = config.health.version then some entry else none
  | _ => none

def reportOfKept (entry : CachedGraph) : Report := ⟨entry.about?, true, entry.graph⟩

/-- Analyses a repository anew and keeps its graph. That this fails does not matter. -/
def afresh (parse : Parse) (host : Host m) (root : String) (config : Config)
    (locator : Repository.Locator) : m (Except Failure Report) := do
  let client := Repository.Client.ofToken (← Settings.lookup host tokenName)
  match ← client.repository host locator config.maxDepth with
  | .error error => return .error (.remote error)
  | .ok (metadata, tree) =>
    match ← run parse config (.ofWeb host client.token?) tree with
    | .error error => return .error (.analysis error)
    | .ok graph =>
      let about := metadata.toJson.sorted
      let entry : CachedGraph :=
        { key := locator.key, version := CachedGraph.currentVersion
          policyVersion := config.health.version, time := ← host.now, about? := some about, graph }
      let _ ← Cache.save host root entry
      return .ok ⟨some about, false, graph⟩

/-- Analyses a repository, unless its graph has been kept and may be used. -/
def ofRepository (parse : Parse) (host : Host m) (root : String) (config : Config)
    (locator : Repository.Locator) (refresh : Bool) : m (Except Failure Report) := do
  if refresh then afresh parse host root config locator
  else
    match kept? config (← Cache.load host root locator.key) with
    | some entry => return .ok (reportOfKept entry)
    | none => afresh parse host root config locator

end Analysis

namespace Target

variable {m : Type → Type} [Monad m]

/-- What a target names: a folder that is there, or else a repository. -/
def classify (host : Host m) (root : String) : Option String → m (Except Failure Target)
  | none => return .ok (folder root)
  | some target => do
    if ← host.hasFolder target then return .ok (folder target)
    else
      match Repository.Locator.ofText? target with
      | some locator => return .ok (repository locator)
      | none => return .error (.noTarget target)

end Target

namespace AnalyzeRequest

variable {m : Type → Type} [Monad m]

def report (parse : Analysis.Parse) (host : Host m) (root : String) (config : Config)
    (request : AnalyzeRequest) : m (Except Failure Report) := do
  match request.tree? with
  | some path => Analysis.ofDocument parse host config path
  | none =>
    match ← Target.classify host root request.target? with
    | .error failure => return .error failure
    | .ok (.folder path) => Analysis.ofFolder parse host config path
    | .ok (.repository locator) =>
      Analysis.ofRepository parse host root config locator request.refresh

/-- Hands a report over: to a file, or as the text to print. -/
def deliver (host : Host m) (request : AnalyzeRequest) (report : Report) :
    m (Except Failure String) := do
  match request.output? with
  | none => return .ok (report.toText ++ "\n")
  | some path =>
    match ← host.write path report.toText.toUTF8 with
    | .ok () => return .ok ""
    | .error _ => return .error (.unwritable path)

/-- Makes the report that is asked for: the text to print. -/
def run (parse : Analysis.Parse) (host : Host m) (root : String) (request : AnalyzeRequest) :
    m (Except Failure String) := do
  match ← Config.load host root with
  | .error error => return .error (.ofConfigLoad error)
  | .ok config =>
    match ← request.report parse host root config with
    | .error failure => return .error failure
    | .ok report => request.deliver host report

end AnalyzeRequest

end CodeGraph
