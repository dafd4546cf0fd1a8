import CodeGraph.Text.Blank

/-! The lines of a settings file. A line goes on where a quote is open or its end is escaped. -/
namespace CodeGraph.Settings

/-- Where in a line the reader stands. -/
inductive LineState where
  | plain
  | blank
  | escaped
  | inQuotes
  | inQuotesEscaped
  | inApostrophes
  | inApostrophesEscaped
  deriving DecidableEq, Inhabited, Repr

namespace LineState

/-- What a character outside quotes leads to. -/
def outside (c : Char) : LineState :=
  if c = '\\' then escaped
  else if c = '"' then inQuotes
  else if c = '\'' then inApostrophes
  else plain

/-- What a character leads to; none for the start of a comment. -/
def next? (c : Char) : LineState → Option LineState
  | blank => if c = '#' then none else some (outside c)
  | plain => some (if Text.isBlank c && c ≠ '\n' && c ≠ '\r' then blank else outside c)
  | escaped => some plain
  | inQuotes => some (if c = '\\' then inQuotesEscaped else if c = '"' then plain else inQuotes)
  | inQuotesEscaped => some inQuotes
  | inApostrophes =>
    some (if c = '\\' then inApostrophesEscaped else if c = '\'' then plain else inApostrophes)
  | inApostrophesEscaped => some inApostrophes

/-- Passes over characters: those before a comment, and the state after all of them if there is no
comment. -/
def pass (state : LineState) : List Char → List Char × Option LineState
  | [] => ([], some state)
  | c :: rest =>
    match state.next? c with
    | none => ([], none)
    | some state =>
      let (before, last) := pass state rest
      (c :: before, last)

end LineState

def cutBreak (line : List Char) : List Char :=
  match line.reverse with
  | '\n' :: '\r' :: rest => rest.reverse
  | '\n' :: rest => rest.reverse
  | _ => line

/-- Joins lines that go on, given the part of a line read so far. A line that never ends is
dropped. -/
def joinLines (pending : List Char) (state : LineState) : List (List Char) → List (List Char)
  | [] => []
  | line :: rest =>
    let whole := pending ++ line
    if (Text.dropBlanks whole).head? = some '#' then joinLines [] .plain rest
    else
      match state.pass line with
      | (before, none) => (pending ++ before) :: joinLines [] .plain rest
      | (_, some .plain) => cutBreak whole :: joinLines [] .plain rest
      | (_, some state) => joinLines whole state rest

/-- The lines of some bytes, each with its break, up to the first that is no text. `fuel` bounds
their number. -/
def physicalLines : Nat → List UInt8 → List (List Char)
  | 0, _ => []
  | _ + 1, [] => []
  | fuel + 1, bytes =>
    let line := bytes.takeWhile (· ≠ '\n'.toUInt8)
    let rest := bytes.drop line.length
    match String.fromUTF8? ⟨(line ++ rest.take 1).toArray⟩ with
    | none => []
    | some text => text.toList :: physicalLines fuel (rest.drop 1)

/-- The lines of a file. A byte order mark in front does not count. -/
def lines (content : ByteArray) : List (List Char) :=
  let bytes := content.toList
  let bytes := if [0xEF, 0xBB, 0xBF].isPrefixOf bytes then bytes.drop 3 else bytes
  joinLines [] .plain (physicalLines (content.size + 1) bytes)

end CodeGraph.Settings
