import CodeGraph.Scan.Glob
import CodeGraph.Text.Blank

/-! Rules that say which items of a folder are left out. -/
namespace CodeGraph

/-- A rule: the paths it applies to, whether it keeps them instead of leaving them out, and whether
it is about folders only. -/
structure IgnoreRule where
  glob : Glob
  keeps : Bool
  foldersOnly : Bool

namespace IgnoreRule

/-- A pattern without a slash applies at any depth. -/
def atAnyDepth (text : List Char) : List Char :=
  let marked := ['*', '*', '/'].isPrefixOf text || text = ['*', '*']
  if marked then text else ['*', '*', '/'] ++ text

/-- A pattern for what is below a folder does not apply to the folder. -/
def belowOnly (text : List Char) : List Char :=
  if ['/', '*', '*'].isSuffixOf text then text ++ ['/', '*'] else text

/-- The pattern after a mark for folders only has been taken off, and whether there was one. -/
def cutSlash (text : List Char) : List Char × Bool :=
  match text.reverse with
  | '/' :: '\\' :: rest => (rest.reverse, true)
  | '/' :: rest => (rest.reverse, true)
  | _ => (text, false)

/-- A rule from its pattern; `rooted` says that it starts at the folder of the rule. -/
def make? (keeps rooted : Bool) (text : List Char) : Option IgnoreRule := do
  let (text, foldersOnly) := cutSlash text
  let text := if rooted || text.contains '/' then text else atAnyDepth text
  return { glob := ← Glob.ofText? (belowOnly text), keeps, foldersOnly }

/-- The pattern of a line without the slash that it starts with. -/
def rooted? (keeps : Bool) : List Char → Option IgnoreRule
  | '/' :: text => make? keeps true text
  | text => make? keeps false text

/-- Reads a line. Comments and empty lines hold no rule. -/
def ofLine? (line : List Char) : Option IgnoreRule :=
  if line.head? = some '#' then none
  else
    let line := if ['\\', ' '].isSuffixOf line then line else Text.dropBlanksRight line
    match line with
    | [] => none
    | '\\' :: '!' :: text => make? false false ('!' :: text)
    | '\\' :: '#' :: text => make? false false ('#' :: text)
    | '!' :: text => rooted? true text
    | text => rooted? false text

def applies (rule : IgnoreRule) (path : String) (isFolder : Bool) : Bool :=
  (isFolder || !rule.foldersOnly) && rule.glob.accepts path

/-- A line without the carriage return that it ends with. -/
def cutReturn (line : List UInt8) : List UInt8 :=
  if line.getLast? = some '\r'.toUInt8 then line.dropLast else line

def text? (line : List UInt8) : Option (List Char) :=
  (String.fromUTF8? ⟨line.toArray⟩).map (·.toList)

/-- The lines of some bytes, up to the first that is no text. A carriage return belongs to the line
unless a newline follows. -/
def lines (fuel : Nat) (bytes : List UInt8) : List (List Char) :=
  match fuel with
  | 0 => []
  | fuel + 1 =>
    let line := bytes.takeWhile (· ≠ '\n'.toUInt8)
    match bytes.dropWhile (· ≠ '\n'.toUInt8) with
    | [] => (text? line).toList
    | _ :: rest =>
      match text? (cutReturn line) with
      | none => []
      | some text => text :: lines fuel rest

/-- Reads the rules of a file. A byte order mark in front does not count. -/
def ofBytes (bytes : ByteArray) : List IgnoreRule :=
  match lines (bytes.size + 1) bytes.toList with
  | [] => []
  | first :: rest => ((first.dropWhile (· = '\uFEFF')) :: rest).filterMap ofLine?

/-- What rules say about an item: whether it is left out. The last rule that applies decides. -/
def verdict? (rules : List IgnoreRule) (path : String) (isFolder : Bool) : Option Bool :=
  (rules.reverse.find? (·.applies path isFolder)).map (! ·.keeps)

end IgnoreRule

end CodeGraph
