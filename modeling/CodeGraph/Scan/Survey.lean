import CodeGraph.Disk.Basic
import CodeGraph.Scan.Rule

/-! What is seen of a folder: its files with their sizes, and the rules around them. -/
namespace CodeGraph

/-- The rules of a folder, by the file that holds them. Those of the first kind go before those of
the second, and these before those of the third. -/
structure FolderRules where
  own : List IgnoreRule
  shared : List IgnoreRule
  excluded : List IgnoreRule

namespace FolderRules

/-- Where the files that hold rules are found, kind by kind. -/
def places : List (List String) := [[".ignore"], [".gitignore"], [".git", "info", "exclude"]]

def ofContents (own? shared? excluded? : Option ByteArray) : FolderRules :=
  let rules := fun (content? : Option ByteArray) => content?.elim [] IgnoreRule.ofBytes
  ⟨rules own?, rules shared?, rules excluded?⟩

/-- The rules of a folder whose files are found by their places. -/
def ofPlaces (content? : List String → Option ByteArray) : FolderRules :=
  match places.map content? with
  | [own?, shared?, excluded?] => ofContents own? shared? excluded?
  | _ => ofContents none none none

end FolderRules

/-- What is seen of a file: its size, and its content if it may hold rules. -/
structure FileFacts where
  size : UInt64
  rules : ByteArray
  deriving Inhabited

/-- What is seen of a folder: its name, its items, and the folders around it, nearest first, with
their names and rules. -/
structure Survey where
  name : String
  items : List (String × DiskItem FileFacts)
  around : List (String × FolderRules)

namespace FileFacts

def ofContent (content : ByteArray) : FileFacts := ⟨UInt64.ofNat content.size, content⟩

end FileFacts

namespace Disk

def rulesAt (disk : Disk) (place : List String) : FolderRules :=
  .ofPlaces fun names => disk.contentAt? (place ++ names)

/-- The folders that lead to a place, nearest first, with their names and rules. -/
def around (disk : Disk) (place : List String) : List (String × FolderRules) :=
  (List.range place.length).reverse.map fun n =>
    ((place.take n).getLastD "", disk.rulesAt (place.take n))

def survey? (disk : Disk) (path : String) : Option Survey :=
  match disk.place path with
  | .error _ => none
  | .ok place =>
    match disk.at? place with
    | some (.folder items) =>
      some ⟨place.getLastD "", DiskItem.mapItems .ofContent items, disk.around place⟩
    | _ => none

end Disk

end CodeGraph
