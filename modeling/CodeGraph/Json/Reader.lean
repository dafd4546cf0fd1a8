import CodeGraph.Json.Basic

/-! Reading JSON texts. The value is kept up to the place where the text goes wrong. -/
namespace CodeGraph.Json

/-- What follows in the text, or the fault that ends it. -/
abbrev Rest := Except Fault (List Char)

namespace Read

def isBlank (c : Char) : Bool := c == ' ' || c == '\n' || c == '\t' || c == '\r'

def skip (text : List Char) : List Char := text.dropWhile isBlank

def hexValue? (c : Char) : Option Nat :=
  if c.isDigit then some (c.toNat - '0'.toNat)
  else if 'a' ≤ c && c ≤ 'f' then some (c.toNat - 'a'.toNat + 10)
  else if 'A' ≤ c && c ≤ 'F' then some (c.toNat - 'A'.toNat + 10)
  else none

def hex4 : List Char → Except Fault (Nat × List Char)
  | a :: b :: c :: d :: rest =>
    match hexValue? a, hexValue? b, hexValue? c, hexValue? d with
    | some a, some b, some c, some d => .ok (((a * 16 + b) * 16 + c) * 16 + d, rest)
    | _, _, _, _ => .error .malformed
  | _ => .error .truncated

def escaped? (c : Char) : Option Char :=
  match c with
  | '"' => some '"'
  | '\\' => some '\\'
  | '/' => some '/'
  | 'b' => some '\x08'
  | 'f' => some '\x0c'
  | 'n' => some '\n'
  | 'r' => some '\r'
  | 't' => some '\t'
  | _ => none

/-- A string after its opening quote: its characters in reverse, and whether every surrogate has
its partner. `fuel` bounds the length. -/
def stringTail : Nat → List Char → List Char → Bool → Except Fault (List Char × Bool × List Char)
  | 0, _, _, _ => .error .truncated
  | fuel + 1, read, text, paired =>
    match text with
    | [] => .error .truncated
    | '"' :: rest => .ok (read, paired, rest)
    | '\\' :: [] => .error .truncated
    | '\\' :: 'u' :: rest => do
      let (unit, rest) ← hex4 rest
      if unit < 0xD800 || unit > 0xDFFF then
        stringTail fuel (Char.ofNat unit :: read) rest paired
      else if unit > 0xDBFF then stringTail fuel read rest false
      else
        match rest with
        | '\\' :: 'u' :: after => do
          let (low, after) ← hex4 after
          if 0xDC00 ≤ low && low ≤ 0xDFFF then
            let point := 0x10000 + (unit - 0xD800) * 0x400 + (low - 0xDC00)
            stringTail fuel (Char.ofNat point :: read) after paired
          else stringTail fuel read rest false
        | _ => stringTail fuel read rest false
    | '\\' :: c :: rest =>
      match escaped? c with
      | some c => stringTail fuel (c :: read) rest paired
      | none => .error .malformed
    | c :: rest =>
      if c.val < 0x20 then .error .malformed else stringTail fuel (c :: read) rest paired

/-- The rest of a word after its first letter. -/
def wordTail : List Char → List Char → Rest
  | [], rest => .ok rest
  | _ :: _, [] => .error .truncated
  | c :: word, d :: rest => if c = d then wordTail word rest else .error .malformed

def digits1 (text : List Char) : Except Fault (List Char × List Char) :=
  match text with
  | [] => .error .truncated
  | c :: _ =>
    if c.isDigit then .ok (text.takeWhile Char.isDigit, text.dropWhile Char.isDigit)
    else .error .malformed

/-- The spelling of a number. -/
def numberTail (text : List Char) : Except Fault (List Char × List Char) := do
  let (sign, rest) := match text with
    | '-' :: rest => (['-'], rest)
    | _ => ([], text)
  let (whole, rest) ← digits1 rest
  if whole.head? = some '0' && whole.length > 1 then .error .malformed
  let (fraction, rest) ← match rest with
    | '.' :: rest => do
      let (digits, rest) ← digits1 rest
      pure ('.' :: digits, rest)
    | _ => pure ([], rest)
  let (power, rest) ← match rest with
    | e :: rest =>
      if e = 'e' || e = 'E' then do
        let (sign, rest) := match rest with
          | '-' :: rest => (['-'], rest)
          | '+' :: rest => (['+'], rest)
          | _ => ([], rest)
        let (digits, rest) ← digits1 rest
        pure (e :: sign ++ digits, rest)
      else pure ([], e :: rest)
    | [] => pure ([], [])
  return (sign ++ whole ++ fraction ++ power, rest)

abbrev Outcome := Json × Rest

def fail (fault : Fault) : Outcome := (.broken fault, .error fault)

def scalar (make : α → Json) : Except Fault (α × List Char) → Outcome
  | .ok (value, rest) => (make value, .ok rest)
  | .error fault => fail fault

def text (rest : List Char) : Except Fault (Option String × List Char) := do
  let (read, paired, rest) ← stringTail (rest.length + 1) [] rest true
  return (if paired then some (String.ofList read.reverse) else none, rest)

mutual
/-- A value. `fuel` bounds the length of the text. -/
def value : Nat → List Char → Outcome
  | 0, _ => fail .truncated
  | fuel + 1, input =>
    match skip input with
    | [] => fail .truncated
    | 'n' :: rest => scalar (fun _ => .null) ((wordTail "ull".toList rest).map ((), ·))
    | 't' :: rest => scalar (fun _ => .bool true) ((wordTail "rue".toList rest).map ((), ·))
    | 'f' :: rest => scalar (fun _ => .bool false) ((wordTail "alse".toList rest).map ((), ·))
    | '"' :: rest =>
      scalar (fun | some text => .string text | none => .unpaired) (text rest)
    | '[' :: rest =>
      let (items, rest) := items fuel true rest
      (.array items (match rest with | .ok _ => none | .error fault => some fault), rest)
    | '\x7b' :: rest =>
      let (members, rest) := members fuel true rest
      (.object members (match rest with | .ok _ => none | .error fault => some fault), rest)
    | c :: rest =>
      if c = '-' || c.isDigit then scalar (.number <| String.ofList ·) (numberTail (c :: rest))
      else fail .malformed

/-- The items of an array up to its end. After a comma there is an item, if only a broken one. -/
def items : Nat → Bool → List Char → List Json × Rest
  | 0, _, _ => ([], .error .truncated)
  | fuel + 1, first, input =>
    let next := fun (input : List Char) =>
      match value fuel input with
      | (item, .ok rest) =>
        let (more, rest) := items fuel false rest
        (item :: more, rest)
      | (item, .error fault) => ([item], .error fault)
    match skip input with
    | [] => ([], .error .truncated)
    | ']' :: rest => ([], .ok rest)
    | c :: rest =>
      if first then next (c :: rest)
      else if c = ',' then
        match skip rest with
        | ']' :: _ => ([.broken .malformed], .error .malformed)
        | rest => next rest
      else ([], .error .malformed)

def members : Nat → Bool → List Char → List (String × Json) × Rest
  | 0, _, _ => ([], .error .truncated)
  | fuel + 1, first, input =>
    let next := fun (input : List Char) =>
      match input with
      | '"' :: rest =>
        match text rest with
        | .error fault => ([], .error fault)
        | .ok (none, _) => ([], .error .malformed)
        | .ok (some name, rest) =>
          match skip rest with
          | [] => ([(name, .broken .truncated)], .error .truncated)
          | ':' :: rest =>
            match value fuel rest with
            | (member, .ok rest) =>
              let (more, rest) := members fuel false rest
              ((name, member) :: more, rest)
            | (member, .error fault) => ([(name, member)], .error fault)
          | _ => ([(name, .broken .malformed)], .error .malformed)
      | [] => ([], .error .truncated)
      | _ => ([], .error .malformed)
    match skip input with
    | [] => ([], .error .truncated)
    | '\x7d' :: rest => ([], .ok rest)
    | c :: rest =>
      if first then next (c :: rest)
      else if c = ',' then next (skip rest)
      else ([], .error .malformed)
end

end Read

/-- A text read as one value: the value and what is wrong after it. -/
structure Document where
  value : Json
  fault? : Option Fault
  deriving Inhabited

/-- Reads a text: nothing but blanks may follow the value. -/
def Document.ofText (text : String) : Document :=
  match Read.value (text.length + 1) text.toList with
  | (value, .error _) => ⟨value, none⟩
  | (value, .ok rest) => ⟨value, if (Read.skip rest).isEmpty then none else some .malformed⟩

end CodeGraph.Json
