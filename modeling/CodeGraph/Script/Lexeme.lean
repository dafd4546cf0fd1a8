import CodeGraph.Script.Char

/-! The spellings of tokens: each function gives the length of the longest token at the beginning
of a text, if there is one. -/
namespace CodeGraph.Script.Lexeme

/-- The number of characters of a class at the beginning. -/
def run (inClass : Char → Bool) (length : Nat) : List Char → Nat
  | [] => length
  | c :: rest => if inClass c then run inClass (length + 1) rest else length

/-- The length of a given text at the beginning. -/
def exactly : List Char → Nat → List Char → Option Nat
  | [], length, _ => some length
  | _ :: _, _, [] => none
  | c :: cs, length, d :: rest => if c = d then exactly cs (length + 1) rest else none

/-- A length, if it is at least one. -/
def positive (length : Nat) : Option Nat := if length = 0 then none else some length

/-- The length of an escape of a code point, after the backslash: four hexadecimal digits, or any
number of them in braces. -/
def unicodeEscape : List Char → Option Nat
  | 'u' :: '\x7b' :: rest => do
    let digits ← positive (run isHexDigit 0 rest)
    match rest.drop digits with
    | '\x7d' :: _ => some (digits + 3)
    | _ => none
  | 'u' :: rest => if run isHexDigit 0 (rest.take 4) = 4 then some 5 else none
  | _ => none

/-- The length of as many name parts as there are; `skip` characters belong to an escape. -/
def nameParts (skip length : Nat) : List Char → Nat
  | [] => length
  | c :: rest =>
    match skip with
    | skip + 1 => nameParts skip (length + 1) rest
    | 0 =>
      if isNamePart c then nameParts 0 (length + 1) rest
      else if c = '\\' then
        match unicodeEscape rest with
        | some escape => nameParts escape (length + 1) rest
        | none => length
      else length

def name : List Char → Option Nat
  | [] => none
  | c :: rest =>
    if isNameStart c then some (nameParts 0 1 rest)
    else if c = '\\' then (unicodeEscape rest).map fun escape => nameParts escape 1 rest
    else none

/-- A private name, which begins with a number sign. -/
def privateName : List Char → Option Nat
  | '#' :: rest => (name rest).map (· + 1)
  | _ => none

/-- The length of digits of a class with single underscores between them. -/
def moreDigits (isDigit : Char → Bool) (length : Nat) : List Char → Nat
  | [] => length
  | c :: rest =>
    if isDigit c || (c = '_' && (rest.head?.map isDigit).getD false) then
      moreDigits isDigit (length + 1) rest
    else length

def digits (isDigit : Char → Bool) : List Char → Option Nat
  | [] => none
  | c :: rest => if isDigit c then some (moreDigits isDigit 1 rest) else none

/-- The length of a mark of the exponent with its digits, or zero. -/
def exponent : List Char → Nat
  | e :: rest =>
    if e = 'e' || e = 'E' then
      match rest with
      | s :: more =>
        if s = '-' || s = '+' then ((digits Char.isDigit more).map (· + 2)).getD 0
        else ((digits Char.isDigit rest).map (· + 1)).getD 0
      | [] => 0
    else 0
  | [] => 0

/-- The length of the part after a point: digits and an exponent, each of which may be missing. -/
def fraction (text : List Char) : Nat :=
  let whole := (digits Char.isDigit text).getD 0
  whole + exponent (text.drop whole)

/-- Whether digits may stand before a point or an exponent: a zero must stand alone, or before one
more run that begins with another digit. -/
def isWholePart : List Char → Bool
  | ['0'] => true
  | '0' :: c :: _ => '1' ≤ c && c ≤ '9'
  | c :: _ => '1' ≤ c && c ≤ '9'
  | [] => false

/-- The length of the mark of a big whole number, or zero. -/
def bigMark (text : List Char) : Nat := if text.head? = some 'n' then 1 else 0

/-- A whole number in base ten, or a decimal fraction that begins with a digit. -/
def decimal (text : List Char) : Option Nat := do
  let whole ← digits Char.isDigit text
  let rest := text.drop whole
  if isWholePart (text.take whole) then
    match rest with
    | '.' :: rest => return whole + 1 + fraction rest
    | rest => return whole + max (bigMark rest) (exponent rest)
  else return whole + bigMark rest

/-- A whole number in another base, after its two marks. -/
def based (isDigit : Char → Bool) (rest : List Char) : Option Nat := do
  let whole ← digits isDigit rest
  return 2 + whole + bigMark (rest.drop whole)

def number (text : List Char) : Option Nat :=
  match text with
  | '0' :: x :: rest =>
    if x = 'x' || x = 'X' then based isHexDigit rest <|> decimal text
    else if x = 'b' || x = 'B' then based (fun c => c = '0' || c = '1') rest <|> decimal text
    else if x = 'o' || x = 'O' then based (fun c => '0' ≤ c && c ≤ '7') rest <|> decimal text
    else decimal text
  | '.' :: rest => do
    let whole ← digits Char.isDigit rest
    return 1 + whole + exponent (rest.drop whole)
  | _ => decimal text

/-- The length of the inside of a block comment, up to and with its end. -/
def blockComment (length : Nat) : List Char → Option Nat
  | [] => none
  | '*' :: '/' :: _ => some (length + 2)
  | _ :: rest => blockComment (length + 1) rest

/-- A comment: to the end of the line, or between its marks. -/
def comment : List Char → Option Nat
  | '/' :: '/' :: rest => some (run (fun c => !isLineEnd c && c != '\r') 2 rest)
  | '/' :: '*' :: rest => blockComment 2 rest
  | _ => none

/-- The first line when it names an interpreter. -/
def interpreterLine : List Char → Option Nat
  | '#' :: '!' :: rest => some (run (· != '\n') 2 rest)
  | _ => none

def quotedText (quote : Char) (text : List Char) : Option Nat :=
  positive (run (fun c => c != quote && c != '\\' && c != '\r' && c != '\n') 0 text)

/-- The length of text inside the quotes of a markup attribute: an ampersand takes along the
character after it, unless that begins a character reference. -/
def moreAttributeText (quote : Char) (length : Nat) : List Char → Nat
  | [] => length
  | '&' :: c :: rest =>
    if c != '#' && !c.isAlpha then moreAttributeText quote (length + 2) rest else length
  | c :: rest =>
    if c != quote && c != '&' then moreAttributeText quote (length + 1) rest else length

def attributeText (quote : Char) (text : List Char) : Option Nat :=
  positive (moreAttributeText quote 0 text)

def escape : List Char → Option Nat
  | '\\' :: c :: rest =>
    if c = 'x' then if run isHexDigit 0 (rest.take 2) = 2 then some 4 else none
    else if c = 'u' then (unicodeEscape (c :: rest)).map (· + 1)
    else if '0' ≤ c && c ≤ '7' then some (2 + run (fun c => '0' ≤ c && c ≤ '7') 0 (rest.take 2))
    else if (c = '\r' || c = '?') && (rest.head?.map isLineEnd).getD false then some 3
    else some 2
  | _ => none

/-- The length of the inside of a bracketed class of a regular expression, up to and with its
end. -/
def classBody (length : Nat) : List Char → Option Nat
  | [] => none
  | ']' :: _ => some (length + 1)
  | '\\' :: c :: rest => if c = '\n' then none else classBody (length + 2) rest
  | c :: rest => if c = '\n' || c = '\\' then none else classBody (length + 1) rest

/-- The length of as much of the body of a regular expression as there is; `skip` characters
belong to a bracketed class or an escape. -/
def moreRegex (skip length : Nat) : List Char → Nat
  | [] => length
  | c :: rest =>
    match skip with
    | skip + 1 => moreRegex skip (length + 1) rest
    | 0 =>
      if c = '[' then
        match classBody 0 rest with
        | some body => moreRegex body (length + 1) rest
        | none => length
      else if c = '\\' then
        match rest with
        | d :: _ => if d = '\n' then length else moreRegex 1 (length + 1) rest
        | [] => length
      else if c = '/' || c = '\n' then length
      else moreRegex 0 (length + 1) rest

def regexBody (text : List Char) : Option Nat := positive (moreRegex 0 0 text)

def regexFlags (text : List Char) : Option Nat :=
  positive (run (fun c => 'a' ≤ c && c ≤ 'z') 0 text)

/-- A name in markup that holds a dash. -/
def dashedName : List Char → Option Nat
  | [] => none
  | c :: rest =>
    let isPart := fun (c : Char) => c.isAlphanum || c == '_' || c == '$'
    if isPart c && !c.isDigit then
      let first := run isPart 0 rest
      match rest.drop first with
      | '-' :: more => some (run (fun c => isPart c || c == '-') (first + 2) more)
      | _ => none
    else none

def characterReference : List Char → Option Nat
  | '&' :: text => do
    let body ← match text with
      | '#' :: x :: rest =>
        if x = 'x' || x = 'X' then
          (positive (run isHexDigit 0 (rest.take 6))).map (· + 2)
        else (positive (run Char.isDigit 0 ((x :: rest).take 5))).map (· + 1)
      | text => positive (run Char.isAlpha 0 (text.take 30))
    if (text.drop body).head? = some ';' then some (body + 2) else none
  | _ => none

/-- The two words of a static getter when the line ends right after them. -/
def staticGetLine (text : List Char) : Option Nat := do
  let first ← exactly "static".toList 0 text
  let between ← positive (run isBlank 0 (text.drop first))
  let words ← exactly "get".toList (first + between) (text.drop (first + between))
  let blanks := (text.drop words).takeWhile isBlank
  if blanks.contains '\n' then
    return words + (blanks.reverse.dropWhile (· != '\n')).length
  else none

end CodeGraph.Script.Lexeme
