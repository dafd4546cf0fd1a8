import CodeGraph.Command.Help
import CodeGraph.Command.Run
import Std.Time.DateTime.Timestamp

/-! The program on a real machine. It has no way to reach the web. -/
namespace CodeGraph.Program

def diskError : IO.Error → DiskError
  | .noFileOrDirectory .. => .missing
  | .alreadyExists .. => .exists
  | .inappropriateType _ code _ => if code = 21 then .isFolder else .notFolder
  | error => .other (toString error)

/-- The result of an action, or why it failed. -/
def attempt (action : IO α) : IO (Except DiskError α) := do
  try
    return .ok (← action)
  catch error =>
    return .error (diskError error)

/-- Whether an action succeeds and says so. -/
def holds (action : IO Bool) : IO Bool := return (← attempt action).toOption.getD false

def contentOf? (path : String) : IO (Option ByteArray) :=
  return (← attempt (IO.FS.readBinFile path)).toOption

def ruleNames : List String := FolderRules.places.filterMap (·.getLast?)

/-- An item of a folder. Links and what cannot be read are passed over. -/
partial def look (entry : IO.FS.DirEntry) : IO (Option (String × DiskItem FileFacts)) := do
  match ← attempt entry.path.symlinkMetadata with
  | .error _ => return none
  | .ok metadata =>
    match metadata.type with
    | .dir =>
      let entries := (← attempt entry.path.readDir).toOption.getD #[]
      let items ← entries.toList.filterMapM look
      return some (entry.fileName, .folder items)
    | .file =>
      let rules ←
        if ruleNames.contains entry.fileName then contentOf? entry.path.toString else pure none
      return some (entry.fileName, .file ⟨metadata.byteSize, rules.getD .empty⟩)
    | _ => return none

def rulesOf (folder : String) : IO FolderRules := do
  let contents ← FolderRules.places.mapM fun names => do
    return (names, ← contentOf? (folder ++ "/" ++ "/".intercalate names))
  return .ofPlaces fun names => (contents.lookup names).join

/-- The paths of the folders that a path leads through, the last one first. -/
def upwards (path : String) : List String :=
  let parts := (path.splitOn "/").filter (! ·.isEmpty)
  (List.range (parts.length + 1)).reverse.map fun n =>
    "/" ++ "/".intercalate (parts.take n)

def survey (path : String) : IO (Option Survey) := do
  let seen ← attempt do
    let place ← IO.FS.realPath path
    let items ← (← place.readDir).toList.filterMapM look
    let around ← (upwards place.toString).tail.mapM fun folder => do
      return (Path.fileName folder, ← rulesOf folder)
    return (⟨Path.fileName place.toString, items, around⟩ : Survey)
  return seen.toOption

def readNearest (name : String) : IO (Option ByteArray) := do
  let here ← IO.currentDir
  (upwards here.toString).findSomeM? fun folder => contentOf? (folder ++ "/" ++ name)

def now : IO Time := do
  let time ← Std.Time.Timestamp.now
  let nanos := time.toNanosecondsSinceUnixEpoch.toInt
  return ⟨nanos.fdiv 1000000000, (nanos.fmod 1000000000).toNat⟩

/-- The means of a run that began at some time, in milliseconds. -/
def host (start : Nat) : Host IO where
  hasItem path := holds do (← IO.FS.realPath path).pathExists
  hasFolder path := holds do (← IO.FS.realPath path).isDir
  read path := attempt (IO.FS.readBinFile path)
  write path content := attempt (IO.FS.writeBinFile path content)
  makeFolders path := attempt (IO.FS.createDirAll path)
  removeFolder path := attempt (IO.FS.removeDirAll path)
  survey := survey
  readNearest := readNearest
  send _ := pure none
  setting name := IO.getEnv name
  now := now
  elapsed := return ((← IO.monoMsNow) - start) / 1000

def tell : Outcome → IO Unit
  | .printed text => IO.print text
  | .failed failure => IO.eprintln ("Error: " ++ failure.message?.getD "malformed document")
  | .refused .help => IO.println Command.helpText
  | .refused .usage => IO.eprintln Command.usageText

end CodeGraph.Program

def main (arguments : List String) : IO UInt32 := do
  let host := CodeGraph.Program.host (← IO.monoMsNow)
  let outcome ← CodeGraph.runArguments CodeGraph.ParsedSource.ofSource host arguments
  CodeGraph.Program.tell outcome
  return UInt32.ofNat outcome.status
