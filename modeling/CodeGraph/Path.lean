/-! Paths inside a tree: segments with slashes between them, and their normal form. -/
namespace CodeGraph.Path

abbrev Segment := List Char

def up : Segment := ['.', '.']

/-- The segments of a path; empty ones stay. -/
def split : List Char → List Segment
  | [] => [[]]
  | c :: rest =>
    if c = '/' then [] :: split rest
    else
      match split rest with
      | [] => [[c]]
      | segment :: more => (c :: segment) :: more

def join : List Segment → List Char
  | [] => []
  | [segment] => segment
  | segment :: rest => segment ++ '/' :: join rest

/-- A backslash counts as a slash. -/
def unify (c : Char) : Char := if c = '\\' then '/' else c

/-- Puts one more segment on a stack whose head is its top. Empty segments and single dots leave
it alone, and two dots take away an ordinary segment if there is one on top. -/
def push (stack : List Segment) (segment : Segment) : List Segment :=
  if segment = [] ∨ segment = ['.'] then stack
  else if segment = up then
    match stack with
    | [] => [up]
    | top :: rest => if top = up then up :: top :: rest else rest
  else segment :: stack

/-- The segments that are left once dots are folded away. -/
def clean (segments : List Segment) : List Segment := (segments.foldl push []).reverse

def segments (path : String) : List Segment := clean (split (path.toList.map unify))

def normalize (path : String) : String := String.ofList (join (segments path))

def fileName (path : String) : String :=
  String.ofList ((split path.toList).getLastD [])

/-- What stands before the last slash; empty if there is none. -/
def folder (path : String) : String := String.ofList (join (split path.toList).dropLast)

/-- What follows the last dot; all of it if there is none. -/
def afterDot (name : String) : String :=
  String.ofList (name.toList.reverse.takeWhile (· ≠ '.')).reverse

def dropSlashes (path : String) : String := String.ofList (path.toList.dropWhile (· = '/'))

/-- A path below a folder; the folder without a name is the root. -/
def below (folder name : String) : String :=
  if folder.isEmpty then name else folder ++ "/" ++ name

end CodeGraph.Path
