import CodeGraph.Settings.Line

/-! Assignments in a settings file. -/
namespace CodeGraph.Settings

/-- A part of a value: text, or the value of another setting. -/
inductive Piece where
  | text (chars : List Char)
  | setting (name : String)
  deriving DecidableEq, Inhabited, Repr

structure Assignment where
  name : String
  pieces : List Piece
  deriving DecidableEq, Inhabited, Repr

/-- Where in a value the reader stands: outside quotes, inside them, after a backslash, in the name
of a setting, or after the value. -/
inductive ValueState where
  | plain
  | inQuotes
  | inApostrophes
  | escaped (quoted : Bool)
  | named (quoted : Bool) (name : List Char)
  | braced (quoted : Bool) (name : List Char)
  | done
  deriving DecidableEq, Inhabited, Repr

namespace ValueState

/-- Outside quotes, or inside them. -/
def outer (quoted : Bool) : ValueState := if quoted then inQuotes else plain

/-- The setting of a name given in reverse. -/
def settingOf (name : List Char) : Piece := .setting (String.ofList name.reverse)

/-- One character of a value. -/
def one (c : Char) : Piece := .text [c]

/-- What a character leads to, and what it adds to the value. -/
def next? (c : Char) : ValueState → Option (ValueState × List Piece)
  | done => if c = ' ' ∨ c = '\t' then some (done, []) else none
  | escaped quoted =>
    if "\\'\"$ ".contains c then some (outer quoted, [one c])
    else if c = 'n' then some (outer quoted, [one '\n'])
    else none
  | inApostrophes => if c = '\'' then some (plain, []) else some (inApostrophes, [one c])
  | named quoted name =>
    if c.isAlphanum then some (named quoted (c :: name), [])
    else if c = '\x7b' ∧ name.isEmpty then some (braced quoted [], [])
    else if c = '$' then some (named quoted [], [settingOf name])
    else some (outer quoted, [settingOf name, one c])
  | braced quoted name =>
    if c = '\x7d' then some (outer quoted, [settingOf name])
    else some (braced quoted (c :: name), [])
  | inQuotes =>
    if c = '$' then some (named true [], [])
    else if c = '"' then some (plain, [])
    else if c = '\\' then some (escaped true, [])
    else some (inQuotes, [one c])
  | plain =>
    if c = '$' then some (named false [], [])
    else if c = '\'' then some (inApostrophes, [])
    else if c = '"' then some (inQuotes, [])
    else if c = '\\' then some (escaped false, [])
    else if c = ' ' ∨ c = '\t' then some (done, [])
    else some (plain, [one c])

/-- What the end of the line adds to the value; none if a quote or a brace is open. -/
def finish? : ValueState → Option (List Piece)
  | plain => some []
  | done => some []
  | escaped false => some []
  | named false name => some [settingOf name]
  | _ => none

end ValueState

/-- The parts of a value. After its end there may be a comment. -/
def pieces? (state : ValueState) : List Char → Option (List Piece)
  | [] => state.finish?
  | c :: rest =>
    if state = .done ∧ c = '#' then some []
    else do
      let (state, added) ← state.next? c
      return added ++ (← pieces? state rest)

/-- A name, and what follows it and the blanks after it. -/
def name? (line : List Char) : Option (List Char × List Char) :=
  let inName := fun (c : Char) => c.isAlphanum || c = '_' || c = '.'
  match line with
  | c :: _ =>
    if c.isAlpha || c = '_' then
      some (line.takeWhile inName, Text.dropBlanks (line.dropWhile inName))
    else none
  | [] => none

def afterEquals? : List Char → Option (List Char)
  | '=' :: rest => some (Text.dropBlanks rest)
  | _ => none

/-- The name of an assignment, and the text of its value. `export` may stand before the name. -/
def parts? (line : List Char) : Option (List Char × List Char) := do
  let (name, rest) ← name? line
  match afterEquals? rest with
  | some value => return (name, value)
  | none =>
    if name = "export".toList then
      let (name, rest) ← name? rest
      return (name, ← afterEquals? rest)
    else none

/-- Whether there is nothing, or only a comment, on a line. -/
def isVacant (line : List Char) : Bool := line.isEmpty || line.head? = some '#'

def Assignment.ofLine? (line : List Char) : Option Assignment := do
  let (name, value) ← parts? line
  return ⟨String.ofList name, ← if isVacant value then some [] else pieces? .plain value⟩

/-- The assignments of lines, up to the first line that is none. -/
def assignmentsOf : List (List Char) → List Assignment
  | [] => []
  | line :: rest =>
    let line := Text.dropBlanks (Text.dropBlanksRight line)
    if isVacant line then assignmentsOf rest
    else
      match Assignment.ofLine? line with
      | none => []
      | some assignment => assignment :: assignmentsOf rest

def assignments (content : ByteArray) : List Assignment := assignmentsOf (lines content)

end CodeGraph.Settings
