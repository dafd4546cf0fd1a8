import CodeGraph.Cache.Entry
import CodeGraph.Host.Basic
import CodeGraph.Json.Printer

/-! Keeping graphs in a folder, one file for each key. -/
namespace CodeGraph

inductive CacheError where
  | disk (error : DiskError)
  | unwritable (path : String)
  | unreadable (path : String)
  deriving DecidableEq, Inhabited, Repr

namespace CacheError

def message : CacheError → String
  | disk error => error.message
  | unwritable path => "writing graph cache " ++ path
  | unreadable path => "reading graph cache " ++ path

end CacheError

namespace Cache

def folderName : String := ".codeatlas"

def folder (root : String) : String := Path.joined root folderName

/-- The letter for a character of a key. -/
def letter (c : Char) : Char := if c.isAlphanum || c = '-' || c = '.' then c else '_'

/-- The name of the file for a key. Slashes at its end do not count. -/
def fileName (key : String) : String :=
  let chars := (key.toList.reverse.dropWhile (· = '/')).reverse
  String.ofList (chars.map letter) ++ ".json"

def path (root key : String) : String := Path.joined (folder root) (fileName key)

variable {m : Type → Type} [Monad m]

def save (host : Host m) (root : String) (entry : CachedGraph) : m (Except CacheError Unit) := do
  match ← host.makeFolders (folder root) with
  | .error error => return .error (.disk error)
  | .ok () =>
    match ← host.write (path root entry.key) entry.toJson.pretty.toUTF8 with
    | .error _ => return .error (.unwritable (path root entry.key))
    | .ok () => return .ok ()

/-- Keeps a graph under a key, with nothing known of its origin. -/
def saveGraph (host : Host m) (root key : String) (graph : Graph) (policyVersion : UInt32) :
    m (Except CacheError Unit) := do
  let entry : CachedGraph :=
    { key, version := CachedGraph.currentVersion, policyVersion, time := ← host.now
      about? := none, graph }
  save host root entry

/-- A kept graph from the text of its file, if it is that of a key. -/
def entryOf? (path key text : String) : Except CacheError (Option CachedGraph) :=
  match Json.Decode.text CachedGraph.decode (.ofText text) with
  | .error _ => .error (.unreadable path)
  | .ok entry => .ok (if entry.key = key then some entry else none)

def load (host : Host m) (root key : String) : m (Except CacheError (Option CachedGraph)) := do
  if ← host.hasItem (path root key) then
    match ← host.readText (path root key) with
    | .error error => return .error (.disk error)
    | .ok text => return entryOf? (path root key) key text
  else return .ok none

def clear (host : Host m) (root : String) : m (Except DiskError Unit) := do
  if ← host.hasItem (folder root) then host.removeFolder (folder root) else return .ok ()

end Cache

end CodeGraph
