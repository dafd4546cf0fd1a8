import CodeGraph.Json.Reader
import CodeGraph.Toml.Basic

/-! Reading the values of the configuration format that have no parts. -/
namespace CodeGraph.Toml.Read

def isBlank (c : Char) : Bool := c == ' ' || c == '\t'

def skip (input : List Char) : List Char := input.dropWhile isBlank

/-- A character that may stand in a comment or in a string: a tab, or no control character. -/
def isPlain (c : Char) : Bool := c == '\t' || (c.val ≥ 0x20 && c.val != 0x7F)

def newline? : List Char → Option (List Char)
  | '\n' :: rest => some rest
  | '\r' :: '\n' :: rest => some rest
  | _ => none

def skipComment : List Char → List Char
  | '#' :: rest => rest.dropWhile isPlain
  | input => input

/-- The character of a number in base sixteen. -/
def scalar? (digits : List Char) : Option Char := do
  let values ← digits.mapM Json.Read.hexValue?
  let n := values.foldl (fun n digit => n * 16 + digit) 0
  if n < 0xD800 ∨ (0xE000 ≤ n ∧ n < 0x110000) then some (Char.ofNat n) else none

def escaped? (c : Char) : Option Char :=
  match c with
  | 'b' => some '\x08'
  | 'f' => some '\x0c'
  | 'n' => some '\n'
  | 'r' => some '\r'
  | 't' => some '\t'
  | '"' => some '"'
  | '\\' => some '\\'
  | _ => none

def escape : List Char → Option (Char × List Char)
  | 'u' :: rest =>
    if rest.length < 4 then none else (scalar? (rest.take 4)).map (·, rest.drop 4)
  | 'U' :: rest =>
    if rest.length < 8 then none else (scalar? (rest.take 8)).map (·, rest.drop 8)
  | c :: rest => (escaped? c).map (·, rest)
  | [] => none

/-- A string on one line, after its opening quote. `fuel` bounds its length. -/
def shortText : Nat → List Char → List Char → Option (String × List Char)
  | 0, _, _ => none
  | fuel + 1, read, input =>
    match input with
    | '"' :: rest => some (String.ofList read.reverse, rest)
    | '\\' :: rest => do
      let (c, rest) ← escape rest
      shortText fuel (c :: read) rest
    | c :: rest => if isPlain c then shortText fuel (c :: read) rest else none
    | [] => none

/-- A string as it stands on one line, after its opening quote. -/
def shortLiteral (input : List Char) : Option (String × List Char) :=
  let read := input.takeWhile fun c => isPlain c && c != '\''
  match input.drop read.length with
  | '\'' :: rest => some (String.ofList read, rest)
  | _ => none

/-- What closes a string over several lines: up to two more quotes belong to it. -/
def closing (quote : Char) (read rest : List Char) : String × List Char :=
  let more := (rest.take 2).takeWhile (· = quote)
  (String.ofList (read.reverse ++ more), rest.drop more.length)

def skipLines : Nat → List Char → List Char
  | 0, input => input
  | fuel + 1, input =>
    match input with
    | ' ' :: rest => skipLines fuel rest
    | '\t' :: rest => skipLines fuel rest
    | _ =>
      match newline? input with
      | some rest => skipLines fuel rest
      | none => input

/-- A string over several lines, after its opening quotes. A backslash at the end of a line joins
it to the next text. -/
def longText : Nat → List Char → List Char → Option (String × List Char)
  | 0, _, _ => none
  | fuel + 1, read, input =>
    match input with
    | '"' :: '"' :: '"' :: rest => some (closing '"' read rest)
    | '"' :: rest => longText fuel ('"' :: read) rest
    | '\\' :: rest =>
      match newline? (skip rest) with
      | some rest => longText fuel read (skipLines rest.length rest)
      | none => do
        let (c, rest) ← escape rest
        longText fuel (c :: read) rest
    | c :: rest =>
      match newline? (c :: rest) with
      | some rest => longText fuel ('\n' :: read) rest
      | none => if isPlain c then longText fuel (c :: read) rest else none
    | [] => none

/-- A string as it stands over several lines, after its opening quotes. -/
def longLiteral : Nat → List Char → List Char → Option (String × List Char)
  | 0, _, _ => none
  | fuel + 1, read, input =>
    match input with
    | '\'' :: '\'' :: '\'' :: rest => some (closing '\'' read rest)
    | c :: rest =>
      match newline? (c :: rest) with
      | some rest => longLiteral fuel ('\n' :: read) rest
      | none => if isPlain c then longLiteral fuel (c :: read) rest else none
    | [] => none

def text (input : List Char) : Option (String × List Char) :=
  let start := fun (rest : List Char) => (newline? rest).getD rest
  match input with
  | '"' :: '"' :: '"' :: rest => longText (rest.length + 1) [] (start rest)
  | '"' :: rest => shortText (rest.length + 1) [] rest
  | '\'' :: '\'' :: '\'' :: rest => longLiteral (rest.length + 1) [] (start rest)
  | '\'' :: rest => shortLiteral rest
  | _ => none

def isKeyChar (c : Char) : Bool := c.isAlphanum || c == '-' || c == '_'

def keyPart (input : List Char) : Option (String × List Char) :=
  match input with
  | '"' :: rest => shortText (rest.length + 1) [] rest
  | '\'' :: rest => shortLiteral rest
  | _ =>
    let read := input.takeWhile isKeyChar
    if read.isEmpty then none else some (String.ofList read, input.drop read.length)

/-- A key with the parts read so far in reverse. -/
def keyParts : Nat → List String → List Char → Option (List String × List Char)
  | 0, _, _ => none
  | fuel + 1, parts, input => do
    let (part, rest) ← keyPart (skip input)
    match skip rest with
    | '.' :: rest => keyParts fuel (part :: parts) rest
    | rest => some ((part :: parts).reverse, rest)

/-- The greatest number of parts of a key, and of arrays and tables inside each other. -/
def maxParts : Nat := 79

def key (input : List Char) : Option (List String × List Char) := keyParts maxParts [] input

/-- More digits, each after at most one underscore. -/
def digitsTail (isDigit : Char → Bool) : List Char → List Char × List Char
  | '_' :: c :: rest =>
    if isDigit c then
      let (digits, rest) := digitsTail isDigit rest
      (c :: digits, rest)
    else ([], '_' :: c :: rest)
  | c :: rest =>
    if isDigit c then
      let (digits, rest) := digitsTail isDigit rest
      (c :: digits, rest)
    else ([], c :: rest)
  | [] => ([], [])

/-- Digits, the first of which may be zero. -/
def digits (isDigit : Char → Bool) : List Char → Option (List Char × List Char)
  | c :: rest =>
    if isDigit c then
      let (more, rest) := digitsTail isDigit rest
      some (c :: more, rest)
    else none
  | [] => none

/-- Digits without a zero before them. -/
def decimalDigits : List Char → Option (List Char × List Char)
  | '0' :: rest => some (['0'], rest)
  | input => digits Char.isDigit input

/-- A sign: whether it is a minus. -/
def sign : List Char → Bool × List Char
  | '-' :: rest => (true, rest)
  | '+' :: rest => (false, rest)
  | input => (false, input)

def ofDigits (base : Nat) (digits : List Char) : Nat :=
  digits.foldl (fun n c => n * base + (Json.Read.hexValue? c).getD 0) 0

/-- Whole numbers have 64 bits with a sign. -/
def inRange (n : Int) : Option Value :=
  if Int64.minValue.toInt ≤ n ∧ n ≤ Int64.maxValue.toInt then some (.integer n) else none

def integer (input : List Char) : Option (Value × List Char) :=
  let based := fun (base : Nat) (isDigit : Char → Bool) (rest : List Char) => do
    let (digits, rest) ← digits isDigit rest
    return (← inRange (ofDigits base digits), rest)
  match input with
  | '0' :: 'x' :: rest => based 16 (fun c => (Json.Read.hexValue? c).isSome) rest
  | '0' :: 'o' :: rest => based 8 (fun c => '0' ≤ c && c ≤ '7') rest
  | '0' :: 'b' :: rest => based 2 (fun c => c == '0' || c == '1') rest
  | _ => do
    let (negative, rest) := sign input
    let (digits, rest) ← decimalDigits rest
    let n : Int := ofDigits 10 digits
    return (← inRange (if negative then -n else n), rest)

def fraction : List Char → Option (Option (List Char) × List Char)
  | '.' :: rest => (digits Char.isDigit rest).map fun (digits, rest) => (some digits, rest)
  | input => some (none, input)

def exponent : List Char → Option (Option Int × List Char)
  | c :: rest =>
    if c = 'e' ∨ c = 'E' then do
      let (negative, rest) := sign rest
      let (digits, rest) ← digits Char.isDigit rest
      let n : Int := ofDigits 10 digits
      some (some (if negative then -n else n), rest)
    else some (none, c :: rest)
  | [] => some (none, [])

/-- The double nearest to a whole number times a power of ten. Beyond the exponents that matter the
result is infinite or zero. -/
def nearest (digits : Nat) (exponent : Int) : Float :=
  if digits = 0 then 0.0
  else if exponent > 400 then 1.0 / 0.0
  else if exponent + (toString digits).length < -400 then 0.0
  else if exponent ≥ 0 then Float.ofScientific digits false exponent.toNat
  else Float.ofScientific digits true exponent.natAbs

/-- A number with a fraction or an exponent. One above all doubles is refused. -/
def double (input : List Char) : Option (Value × List Char) := do
  let (negative, rest) := sign input
  match rest with
  | 'i' :: 'n' :: 'f' :: rest =>
    some (.double (if negative then -1.0 / 0.0 else 1.0 / 0.0), rest)
  | 'n' :: 'a' :: 'n' :: rest => some (.double (0.0 / 0.0), rest)
  | _ =>
    let (whole, rest) ← decimalDigits rest
    let (fraction?, rest) ← fraction rest
    let (exponent?, rest) ← exponent rest
    if fraction?.isNone && exponent?.isNone then none
    let part := fraction?.getD []
    let size := nearest (ofDigits 10 (whole ++ part)) (exponent?.getD 0 - part.length)
    if !negative && size.isInf then none
    some (.double (if negative then -size else size), rest)

/-- A number of a fixed count of digits, between bounds. -/
def field (count least greatest : Nat) (input : List Char) : Option (Nat × List Char) :=
  let read := (input.take count).takeWhile Char.isDigit
  let n := ofDigits 10 read
  if read.length = count ∧ least ≤ n ∧ n ≤ greatest then some (n, input.drop count) else none

def daysOf (year month : Nat) : Nat :=
  if month = 2 then
    if (year % 4 = 0 ∧ year % 100 ≠ 0) ∨ year % 400 = 0 then 29 else 28
  else if month = 4 ∨ month = 6 ∨ month = 9 ∨ month = 11 then 30
  else 31

def expect (c : Char) : List Char → Option (List Char)
  | d :: rest => if c = d then some rest else none
  | [] => none

def date (input : List Char) : Option (List Char) := do
  let (year, rest) ← field 4 0 9999 input
  let (month, rest) ← field 2 1 12 (← expect '-' rest)
  let (_, rest) ← field 2 1 (daysOf year month) (← expect '-' rest)
  return rest

def time (input : List Char) : Option (List Char) := do
  let (_, rest) ← field 2 0 23 input
  let (_, rest) ← field 2 0 59 (← expect ':' rest)
  let (_, rest) ← field 2 0 60 (← expect ':' rest)
  match rest with
  | '.' :: rest =>
    let digits := rest.takeWhile Char.isDigit
    if digits.isEmpty then none else some (rest.drop digits.length)
  | rest => some rest

def offset (input : List Char) : Option (List Char) :=
  match input with
  | c :: rest =>
    if c = 'Z' ∨ c = 'z' then some rest
    else if c = '+' ∨ c = '-' then do
      let (_, rest) ← field 2 0 23 rest
      let (_, rest) ← field 2 0 59 (← expect ':' rest)
      return rest
    else some input
  | [] => some input

def moment (input : List Char) : Option (Value × List Char) := do
  match date input with
  | some rest =>
    match rest with
    | c :: later =>
      if c = 'T' ∨ c = 't' ∨ c = ' ' then
        match time later with
        | some rest => return (.moment, ← offset rest)
        | none => return (.moment, rest)
      else return (.moment, rest)
    | [] => return (.moment, [])
  | none => return (.moment, ← time input)

def numeric (input : List Char) : Option (Value × List Char) :=
  (moment input).or ((double input).or (integer input))

def word (letters : String) (value : Value) (input : List Char) : Option (Value × List Char) :=
  if letters.toList.isPrefixOf input then some (value, input.drop letters.length) else none

end CodeGraph.Toml.Read
