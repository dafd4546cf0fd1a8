import CodeGraph.Tree.Entry

/-! Building a tree from paths and sizes. -/
namespace CodeGraph.FileTree

/-- Changes the children of the first folder of a path; a folder that is missing is added. -/
def alterFolder (path : String) (change : List Entry → List Entry) : List Entry → List Entry
  | [] => [.folder path (change [])]
  | entry :: rest =>
    if entry.kind = .folder ∧ entry.path = path then
      { entry with children := change entry.children } :: rest
    else entry :: alterFolder path change rest

/-- Adds a file below a folder; the segments lead to it from there. -/
def insert (size : UInt64) : String → List Path.Segment → List Entry → List Entry
  | _, [], entries => entries
  | above, [name], entries => entries ++ [.file (Path.below above (String.ofList name)) size]
  | above, name :: rest, entries =>
    let path := Path.below above (String.ofList name)
    alterFolder path (insert size path rest) entries

/-- The tree of some files, given by path and size. Folders stand where they first occur. -/
def build (files : List (String × UInt64)) : FileTree :=
  files.foldl (fun tree (path, size) => insert size "" (Path.segments path) tree) []

end CodeGraph.FileTree
