import CodeGraph.Scan.Survey

/-! Walking through a folder and all folders below it, past the items that rules leave out. -/
namespace CodeGraph.Scan

/-- What a walk meets: an item that cannot be looked at, a folder, or a file with its size, if that
can be told. -/
inductive Visit where
  | unreadable
  | folder (path : String)
  | file (path : String) (size? : Option UInt64)
  deriving DecidableEq, Inhabited, Repr

/-- A walk through the folder at a path, given what is seen of it. The limit is one of depth: that
of the folder itself is 0, and that of an item is one more than that of the folder it stands in. -/
abbrev Walker := String → Survey → Option Nat → List Visit

/-- What the nearest rule of a kind says about an item, given the names that lead to it from the
nearest folder. -/
def nearest? (kind : FolderRules → List IgnoreRule) (isFolder : Bool) :
    List (String × FolderRules) → List String → Option Bool
  | [], _ => none
  | (name, rules) :: around, names =>
    match IgnoreRule.verdict? (kind rules) ("/".intercalate names) isFolder with
    | some verdict => some verdict
    | none => nearest? kind isFolder around (name :: names)

/-- Whether an item is left out. If no rule speaks of it, its name decides: those that begin with
a dot are hidden. -/
def leavesOut (around : List (String × FolderRules)) (name : String) (isFolder : Bool) : Bool :=
  let verdict? := fun kind => nearest? kind isFolder around [name]
  match (verdict? (·.own)).or ((verdict? (·.shared)).or (verdict? (·.excluded))) with
  | some verdict => verdict
  | none => name.startsWith "."

def rulesOf (items : List (String × DiskItem FileFacts)) : FolderRules :=
  .ofPlaces fun names => ((DiskItem.folder items).contentAt? names).map (·.rules)

/-- The folders around the items of a survey. -/
def outside (survey : Survey) : List (String × FolderRules) :=
  (survey.name, rulesOf survey.items) :: survey.around

def Visit.ofItem (path : String) : DiskItem FileFacts → Visit
  | .file facts => .file path (some facts.size)
  | .folder _ => .folder path

mutual
/-- What is met at an item of some depth and below it. -/
def visitsAt (most? : Option Nat) (depth : Nat) (around : List (String × FolderRules))
    (path name : String) (item : DiskItem FileFacts) : List Visit :=
  if most?.any (· < depth) || leavesOut around name item.isFolder then []
  else
    .ofItem path item ::
      match item with
      | .file _ => []
      | .folder items => visitsBelow most? (depth + 1) ((name, rulesOf items) :: around) path items

/-- What is met at the items of a folder, all of one depth, and below them. -/
def visitsBelow (most? : Option Nat) (depth : Nat) (around : List (String × FolderRules))
    (folder : String) : List (String × DiskItem FileFacts) → List Visit
  | [] => []
  | (name, item) :: rest =>
    visitsAt most? depth around (Path.joined folder name) name item ++
      visitsBelow most? depth around folder rest
end

/-- The walk that leaves out what is hidden and what the rules of the folders around it say. -/
def walk : Walker := fun root survey most? =>
  .folder root :: visitsBelow most? 1 (outside survey) root survey.items

end CodeGraph.Scan
