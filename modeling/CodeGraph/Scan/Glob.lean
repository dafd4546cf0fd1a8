/-! Patterns of paths. Paths are matched as bytes. -/
namespace CodeGraph

inductive GlobPart where
  /-- The character itself. -/
  | literal (c : Char)
  /-- One byte that is no slash. -/
  | any
  /-- Bytes that are no slashes. -/
  | run
  /-- Folders at the beginning, or none. -/
  | folders
  /-- All that is below a folder. -/
  | inside
  /-- A slash, with folders after it or not. -/
  | between
  /-- One byte within some ranges, or outside all of them. -/
  | set (negated : Bool) (ranges : List (UInt8 × UInt8))
  /-- One of several patterns; with none to choose from, nothing. -/
  | choice (branches : List (List GlobPart))

abbrev Glob := List GlobPart

namespace GlobPart

/-- What is left of a text after the bytes that it begins with, if these are given ones. -/
def strip : List UInt8 → List UInt8 → Option (List UInt8)
  | [], text => some text
  | _ :: _, [] => none
  | a :: start, b :: text => if a = b then strip start text else none

/-- A text and what is left of it after each of its bytes up to the first slash. -/
def afterRun : List UInt8 → List (List UInt8)
  | [] => [[]]
  | b :: rest => (b :: rest) :: if b = '/'.toUInt8 then [] else afterRun rest

/-- What is left of a text after each of its slashes. -/
def afterSlashes : List UInt8 → List (List UInt8)
  | [] => []
  | b :: rest => if b = '/'.toUInt8 then rest :: afterSlashes rest else afterSlashes rest

/-- A text and what is left of it after each of its bytes. -/
def tails : List UInt8 → List (List UInt8)
  | [] => [[]]
  | b :: rest => (b :: rest) :: tails rest

def afterSlash (next : List UInt8 → List (List UInt8)) : List UInt8 → List (List UInt8)
  | [] => []
  | b :: rest => if b = '/'.toUInt8 then next rest else []

def afterByte (kind : UInt8 → Bool) : List UInt8 → List (List UInt8)
  | [] => []
  | b :: rest => if kind b then [rest] else []

mutual
/-- What may be left of a text once a part has taken its beginning. -/
def rests : GlobPart → List UInt8 → List (List UInt8)
  | literal c, text => (strip c.toString.toUTF8.toList text).toList
  | any, text => afterByte (· ≠ '/'.toUInt8) text
  | run, text => afterRun text
  | folders, text => text :: afterSlashes text
  | inside, text => afterSlash tails text
  | between, text => afterSlash (fun rest => rest :: afterSlashes rest) text
  | set negated ranges, text =>
    afterByte (fun b => ranges.any (fun range => range.1 ≤ b && b ≤ range.2) != negated) text
  | choice [], text => [text]
  | choice (branch :: more), text => restsOfChoice (branch :: more) text

/-- What may be left of a text once one of several patterns has taken its beginning. -/
def restsOfChoice : List (List GlobPart) → List UInt8 → List (List UInt8)
  | [], _ => []
  | branch :: more, text => restsOfParts branch [text] ++ restsOfChoice more text

/-- What may be left of some texts once all parts have taken their beginnings. -/
def restsOfParts : List GlobPart → List (List UInt8) → List (List UInt8)
  | [], texts => texts
  | part :: more, texts => restsOfParts more (texts.flatMap (rests part)).eraseDups
end

/-- Whether a pattern takes nothing because there is nothing to choose from. -/
def isVacant (branch : List GlobPart) : Bool :=
  branch.all fun
    | choice [] => true
    | _ => false

end GlobPart

namespace Glob

/-- Whether a pattern takes the whole of a path. Folders alone take any path. -/
def accepts (glob : Glob) (path : String) : Bool :=
  match glob with
  | [.folders] => true
  | parts => (GlobPart.restsOfParts parts [path.toUTF8.toList]).contains []

namespace Read

/-- The ranges of bytes for a range of characters: its ends count byte by byte. -/
def byteRanges (first last : Char) : List (UInt8 × UInt8) :=
  let single := fun (b : UInt8) => (b, b)
  let a := first.toString.toUTF8.toList
  let b := last.toString.toUTF8.toList
  if first = last then a.map single
  else a.dropLast.map single ++ [(a.getLastD 0, b.headD 0)] ++ b.tail.map single

/-- The characters of a set up to its end, as ranges in reverse. The outer option is none for a
range that runs backwards, the inner one if the set does not end. -/
def setTail (first ranging : Bool) (ranges : List (Char × Char)) :
    List Char → Option (Option (List (Char × Char) × List Char))
  | [] => some none
  | c :: rest =>
    if c = ']' ∧ ¬ first then
      some (some (if ranging then ('-', '-') :: ranges else ranges, rest))
    else if ranging then
      match ranges with
      | (least, _) :: ranges =>
        if c < least then none else setTail false false ((least, c) :: ranges) rest
      | [] => none
    else if c = '-' ∧ ¬ first then setTail false true ranges rest
    else setTail false false ((c, c) :: ranges) rest

/-- The patterns between braces that are open: those that are finished, in reverse, and the parts
of the last one, in reverse. -/
structure Frame where
  finished : List (List GlobPart)
  parts : List GlobPart

def Frame.empty : Frame := ⟨[], []⟩

def Frame.push (part : GlobPart) (frame : Frame) : Frame :=
  { frame with parts := part :: frame.parts }

/-- Closes the pattern before a comma. -/
def Frame.next (frame : Frame) : Frame := ⟨frame.parts.reverse :: frame.finished, []⟩

def Frame.choice (frame : Frame) : GlobPart :=
  .choice ((frame.parts.reverse :: frame.finished).reverse.filter (! GlobPart.isVacant ·))

/-- Puts a part for folders in the place of the slash before it. Folders at the beginning and
below a folder stay as they are. -/
def Frame.replace (part : GlobPart) (frame : Frame) : Frame :=
  match frame.parts with
  | .folders :: _ => frame
  | .inside :: _ => frame
  | _ :: parts => { frame with parts := part :: parts }
  | [] => frame

/-- Two stars, given the character before them and what follows. -/
def twoStars (before : Option Char) (nested : Bool) (frame : Frame) (rest : List Char) :
    Frame × Option Char × List Char :=
  let plain := ((frame.push .run).push .run, some '*', rest)
  if frame.parts.isEmpty then
    match rest with
    | [] => (frame.push .folders, some '*', [])
    | '/' :: rest => (frame.push .folders, some '/', rest)
    | _ => plain
  else if before = some '/' ∨ (nested ∧ (before = some ',' ∨ before = some '\x7b')) then
    match rest with
    | [] => (frame.replace .inside, some '*', [])
    | '/' :: rest => (frame.replace .between, some '/', rest)
    | c :: _ =>
      if nested ∧ (c = ',' ∨ c = '\x7d') then (frame.replace .inside, some '*', rest) else plain
  else plain

/-- The parts of a pattern, given the character before them, the frame they are added to and the
frames around it. `fuel` bounds the length. -/
def parts : Nat → Option Char → Frame → List Frame → List Char → Option (List GlobPart)
  | 0, _, _, _, _ => none
  | fuel + 1, before, frame, around, text =>
    match text with
    | [] => if around.isEmpty then some frame.parts.reverse else none
    | '?' :: rest => parts fuel (some '?') (frame.push .any) around rest
    | '*' :: '*' :: rest =>
      let (frame, before, rest) := twoStars before (!around.isEmpty) frame rest
      parts fuel before frame around rest
    | '*' :: rest => parts fuel (some '*') (frame.push .run) around rest
    | '[' :: rest =>
      let (negated, inner) := match rest with
        | '!' :: inner => (true, inner)
        | '^' :: inner => (true, inner)
        | inner => (false, inner)
      match setTail true false [] inner with
      | none => none
      | some none => parts fuel (some '[') (frame.push (.literal '[')) around rest
      | some (some (ranges, rest)) =>
        let ranges := ranges.reverse.flatMap fun range => byteRanges range.1 range.2
        parts fuel (some ']') (frame.push (.set negated ranges)) around rest
    | '\x7b' :: rest => parts fuel (some '\x7b') .empty (frame :: around) rest
    | '\x7d' :: rest =>
      match around with
      | [] => none
      | outer :: around => parts fuel (some '\x7d') (outer.push frame.choice) around rest
    | ',' :: rest =>
      let frame := if around.isEmpty then frame.push (.literal ',') else frame.next
      parts fuel (some ',') frame around rest
    | '\\' :: [] => none
    | '\\' :: c :: rest => parts fuel (some c) (frame.push (.literal c)) around rest
    | c :: rest => parts fuel (some c) (frame.push (.literal c)) around rest

end Read

def ofText? (text : List Char) : Option Glob :=
  Read.parts (text.length + 1) none .empty [] text

end Glob

end CodeGraph
