import CodeGraph.Tree.Entry
import CodeGraph.Tree.Table

/-! The files of a tree in one list. -/
namespace CodeGraph

namespace FileTree

mutual
/-- The files of an entry, depth first. The limit says how many folders may still be entered. -/
def filesOfEntry (limit : Option Nat) : Entry → List Entry
  | ⟨path, name, .file, size, handle?, _⟩ =>
    [⟨Path.normalize path, name, .file, size, handle?, []⟩]
  | ⟨_, _, .folder, _, _, children⟩ =>
    if limit = some 0 then [] else filesUpTo (limit.map (· - 1)) children

/-- The files of a list of entries, depth first, with their paths in normal form. -/
def filesUpTo (limit : Option Nat) : List Entry → List Entry
  | [] => []
  | entry :: rest => filesOfEntry limit entry ++ filesUpTo limit rest
end

end FileTree

/-- The files of a tree, with the positions of their paths. -/
structure FlatTree where
  files : List Entry
  paths : PathTable

namespace FlatTree

def ofFiles (files : List Entry) : FlatTree := ⟨files, .ofList (files.map (·.path))⟩

def get? (flat : FlatTree) (path : String) : Option Entry :=
  (flat.paths.position? path).bind (flat.files[·]?)

end FlatTree

/-- The files of a tree that lie at most `maxDepth` folders deep, in one list. -/
def FileTree.flatten (tree : FileTree) (maxDepth : Option Nat) : FlatTree :=
  .ofFiles (filesUpTo maxDepth tree)

end CodeGraph
