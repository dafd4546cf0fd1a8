import CodeGraph.Scan.Walk
import CodeGraph.Tree.Build

/-! Scanning a folder: the tree of the files that a walk through it meets. -/
namespace CodeGraph.Scan

/-- The path and the size of a file. It counts as empty if its size cannot be told. -/
def Visit.file? : Visit → Option (String × UInt64)
  | .file path size? => some (path, size?.getD 0)
  | .folder _ | .unreadable => none

/-- A file with its path from the root, in which a backslash counts as a slash; its path as it is if
it does not lead there. -/
def relative (root : String) (file : String × UInt64) : Except String (String × UInt64) :=
  match Path.stripPrefix? root file.1 with
  | some path => .ok (String.ofList (path.toList.map Path.unify), file.2)
  | none => .error file.1

/-- The order of files: by path, then by size. -/
def inOrder (a b : String × UInt64) : Bool := a.1 < b.1 || (a.1 == b.1 && a.2 ≤ b.2)

/-- The files that a walk meets, in order. The limit counts folders, so that a file in the root is
within any limit; for the walk, it is at depth 1. -/
def files (walk : Walker) (root : String) (survey : Survey) (maxDepth : Option Nat) :
    Except String (List (String × UInt64)) := do
  let visits := walk root survey (maxDepth.map (· + 1))
  let found ← (visits.filterMap Visit.file?).mapM (relative root)
  return found.mergeSort inOrder

/-- The tree of the files that a walk meets; the path of one that is not below the root if there is
such a file. -/
def treeBy (walk : Walker) (root : String) (survey : Survey) (maxDepth : Option Nat) :
    Except String FileTree :=
  FileTree.build <$> files walk root survey maxDepth

def tree : String → Survey → Option Nat → Except String FileTree := treeBy walk

end CodeGraph.Scan
