import CodeGraph.Path
import CodeGraph.Text.Lowercase

/-! Entries of a file tree. -/
namespace CodeGraph

inductive EntryKind where
  | file
  | folder
  deriving DecidableEq, Inhabited, Repr

/-- An entry of a file tree. The handle says where the content of a file is found. -/
structure Entry where
  path : String
  name : String
  kind : EntryKind
  size : UInt64
  handle? : Option String
  children : List Entry
  deriving Inhabited, Repr

/-- A file tree: the entries of its root. -/
abbrev FileTree := List Entry

namespace Entry

/-- A file, which is its own handle. -/
def file (path : String) (size : UInt64) : Entry :=
  { path, name := Path.fileName path, kind := .file, size, handle? := some path, children := [] }

def folder (path : String) (children : List Entry) : Entry :=
  { path, name := Path.fileName path, kind := .folder, size := 0, handle? := none, children }

def isFile (entry : Entry) : Bool := entry.kind = .file

/-- What follows the last dot of the name, in lower case. -/
def extension (entry : Entry) : String := Text.lowercase (Path.afterDot entry.name)

def scriptExtensions : List String := ["js", "jsx", "ts", "tsx"]

/-- Whether an entry is named like a script. -/
def hasScriptName (entry : Entry) : Bool := scriptExtensions.contains entry.extension

def isScript (entry : Entry) : Bool := entry.isFile && entry.hasScriptName

end Entry

end CodeGraph
