import CodeGraph.Path

/-! Files and folders on a disk. -/
namespace CodeGraph

inductive DiskError where
  | missing
  | exists
  | notFolder
  | isFolder
  | nameTooLong
  | nameWithNul
  | notText
  | other (message : String)
  deriving DecidableEq, Inhabited, Repr

namespace DiskError

def message : DiskError → String
  | missing => "No such file or directory (os error 2)"
  | «exists» => "File exists (os error 17)"
  | notFolder => "Not a directory (os error 20)"
  | isFolder => "Is a directory (os error 21)"
  | nameTooLong => "File name too long (os error 36)"
  | nameWithNul => "file name contained an unexpected NUL byte"
  | notText => "stream did not contain valid UTF-8"
  | other message => message

end DiskError

/-- A file with what is known of it, or a folder with its items by name. -/
inductive DiskItem (α : Type) where
  | file (content : α)
  | folder (items : List (String × DiskItem α))

namespace DiskItem

variable {α : Type}

instance : Inhabited (DiskItem α) := ⟨folder []⟩

def isFolder : DiskItem α → Bool
  | folder _ => true
  | file _ => false

/-- The item that some names lead to. -/
def at? : DiskItem α → List String → Option (DiskItem α)
  | item, [] => some item
  | folder items, name :: rest => (items.lookup name).bind (at? · rest)
  | file _, _ :: _ => none

def setItem (name : String) (item : DiskItem α) :
    List (String × DiskItem α) → List (String × DiskItem α)
  | [] => [(name, item)]
  | (other, old) :: rest =>
    if other = name then (name, item) :: rest else (other, old) :: setItem name item rest

/-- Puts an item where some names lead. What stands in the way is left alone. -/
def put (new : DiskItem α) : List String → DiskItem α → DiskItem α
  | [], _ => new
  | name :: rest, folder items =>
    folder (setItem name (put new rest ((items.lookup name).getD (folder []))) items)
  | _ :: _, file content => file content

def remove : List String → DiskItem α → DiskItem α
  | [], item => item
  | [name], folder items => folder (items.filter (·.1 ≠ name))
  | name :: rest, folder items =>
    match items.lookup name with
    | some item => folder (setItem name (remove rest item) items)
    | none => folder items
  | _ :: _, file content => file content

mutual
def map (change : α → β) : DiskItem α → DiskItem β
  | file content => file (change content)
  | folder items => folder (mapItems change items)

def mapItems (change : α → β) : List (String × DiskItem α) → List (String × DiskItem β)
  | [] => []
  | (name, item) :: rest => (name, map change item) :: mapItems change rest
end

/-- The content of the file that some names lead to. -/
def contentAt? (item : DiskItem α) (names : List String) : Option α :=
  match item.at? names with
  | some (file content) => some content
  | _ => none

mutual
def filesBelow (path : String) : DiskItem α → List (String × α)
  | file content => [(path, content)]
  | folder items => filesOfItems path items

/-- The files below some items of a folder, with their paths. -/
def filesOfItems (path : String) : List (String × DiskItem α) → List (String × α)
  | [] => []
  | (name, item) :: rest =>
    filesBelow (Path.below path name) item ++ filesOfItems path rest
end

end DiskItem

/-- A disk: its top folder, where absolute paths start. It is the current folder as well, so that all
other paths start there, too. -/
abbrev Disk := DiskItem ByteArray

namespace Disk

def empty : Disk := .folder []

/-- What is wrong with a name, if it cannot be that of an item. -/
def nameError? (name : String) : Option DiskError :=
  if name.contains '\x00' then some .nameWithNul
  else if 255 < name.utf8ByteSize then some .nameTooLong
  else none

def parts (path : String) : List String := (Path.split path.toList).map String.ofList

/-- Follows the parts of a path from a folder. Only the last of them may be missing. The top is its
own parent. -/
def follow (disk : Disk) (here : List String) : List String → Except DiskError (List String)
  | [] => .ok here
  | part :: rest =>
    match disk.at? here with
    | none => .error .missing
    | some (.file _) => .error .notFolder
    | some (.folder _) =>
      if part = "" ∨ part = "." then follow disk here rest
      else if part = ".." then follow disk here.dropLast rest
      else
        match nameError? part with
        | some error => .error error
        | none => follow disk (here ++ [part]) rest

def place (disk : Disk) (path : String) : Except DiskError (List String) :=
  if path.isEmpty then .error .missing else follow disk [] (parts path)

def item (disk : Disk) (path : String) : Except DiskError (DiskItem ByteArray) := do
  match disk.at? (← disk.place path) with
  | some item => .ok item
  | none => .error .missing

def hasItem (disk : Disk) (path : String) : Bool :=
  match disk.item path with
  | .ok _ => true
  | .error _ => false

def hasFolder (disk : Disk) (path : String) : Bool :=
  match disk.item path with
  | .ok item => item.isFolder
  | .error _ => false

def read (disk : Disk) (path : String) : Except DiskError ByteArray := do
  match ← disk.item path with
  | .file content => .ok content
  | .folder _ => .error .isFolder

/-- Writes a file. Its folder must be there. -/
def write (disk : Disk) (path : String) (content : ByteArray) : Except DiskError Disk := do
  let place ← disk.place path
  match disk.at? place with
  | some (.folder _) => .error .isFolder
  | _ => .ok (DiskItem.put (.file content) place disk)

/-- Makes a folder. The one it stands in must be there. -/
def makeFolder (disk : Disk) (path : String) : Except DiskError Disk := do
  let place ← disk.place path
  match disk.at? place with
  | some _ => .error .exists
  | none => .ok (DiskItem.put (.folder []) place disk)

/-- Makes a folder and those it stands in, given its parts in reverse. -/
def makeParts (disk : Disk) : List String → Except DiskError Disk
  | [] => .ok disk
  | part :: above =>
    let path := "/".intercalate (part :: above).reverse
    match disk.makeFolder path with
    | .ok disk => .ok disk
    | .error .missing => do
      let disk ← disk.makeParts above
      match disk.makeFolder path with
      | .ok disk => .ok disk
      | .error error => if disk.hasFolder path then .ok disk else .error error
    | .error error => if disk.hasFolder path then .ok disk else .error error

def makeFolders (disk : Disk) (path : String) : Except DiskError Disk :=
  disk.makeParts ((parts path).filter (· ≠ "")).reverse

def removeFolder (disk : Disk) (path : String) : Except DiskError Disk := do
  let place ← disk.place path
  match disk.at? place with
  | some (.folder _) => .ok (DiskItem.remove place disk)
  | some (.file _) => .error .notFolder
  | none => .error .missing

end Disk

namespace Path

/-- A path that starts at a folder. -/
def joined (folder path : String) : String :=
  if folder.isEmpty ∨ folder.endsWith "/" then folder ++ path else folder ++ "/" ++ path

/-- The components of a path. A slash in front is one of them; a dot is one only in front. -/
def components (path : String) : List String :=
  match path.isEmpty, Disk.parts path with
  | false, first :: rest =>
    (if first = "" then "/" else first) :: rest.filter fun part => part ≠ "" ∧ part ≠ "."
  | _, _ => []

/-- What is left of a path behind one that it starts with, component by component. -/
def stripPrefix? (folder path : String) : Option String :=
  ((components folder).isPrefixOf? (components path)).map ("/".intercalate ·)

end Path

end CodeGraph
