import CodeGraph.Text.Lowercase
import CodeGraph.Text.Percent
import CodeGraph.Text.Punycode
import CodeGraph.Text.Utf8

/-! The hosts of web addresses: names and numeric addresses in their one spelling. -/
namespace CodeGraph.Web.Address

def splitAt (mark : Char) : List Char → List (List Char)
  | [] => [[]]
  | c :: rest =>
    if c = mark then [] :: splitAt mark rest
    else
      match splitAt mark rest with
      | [] => [[c]]
      | part :: more => (c :: part) :: more

/-- Reads digits in a base; none if there are others. -/
def digits? (base : Nat) (text : List Char) : Option Nat :=
  text.foldlM (fun n c => do
    let d ← Json.Read.hexValue? c
    if d < base then some (n * base + d) else none) 0

/-- Reads a number: with `0x` in front it is hexadecimal, with `0` octal. -/
def number? : List Char → Option Nat
  | [] => none
  | '0' :: c :: rest =>
    if c = 'x' ∨ c = 'X' then digits? 16 rest else digits? 8 (c :: rest)
  | text => digits? 10 text

/-- Whether a name ends in a number, which makes it a numeric address. -/
def endsInNumber (name : List Char) : Bool :=
  let last := match (splitAt '.' name).reverse with
    | [] :: last :: _ => last
    | last :: _ => last
    | [] => []
  (!last.isEmpty && last.all Char.isDigit) || (number? last).isSome

/-- A numeric address of four bytes, of which the last number may fill several. -/
def fourBytes? (name : List Char) : Option Nat := do
  let parts := splitAt '.' name
  let parts := if parts.getLast? = some [] then parts.dropLast else parts
  if 4 < parts.length then none
  let numbers ← parts.mapM number?
  let last ← numbers.getLast?
  let first := numbers.dropLast
  if first.any (255 < ·) ∨ Nat.pow 256 (4 - first.length) ≤ last then none
  return first.zipIdx.foldl (fun sum (n, i) => sum + n * Nat.pow 256 (3 - i)) last

def dotted (n : Nat) : List Char :=
  (".".intercalate ([3, 2, 1, 0].map fun i => toString (n / Nat.pow 256 i % 256))).toList

def group? (text : List Char) : Option Nat :=
  if text.isEmpty ∨ 4 < text.length then none else digits? 16 text

/-- A byte in decimal digits, without zeros in front. -/
def byte? (text : List Char) : Option Nat :=
  if text.isEmpty ∨ 3 < text.length ∨ (1 < text.length ∧ text.head? = some '0') then none
  else (digits? 10 text).bind fun n => if n ≤ 255 then some n else none

/-- Groups with colons between them; four bytes may stand in place of the last two. -/
def groups? (text : List Char) : Option (List Nat) :=
  if text.isEmpty then some []
  else do
    let parts := splitAt ':' text
    let last ← parts.getLast?
    if last.contains '.' then
      match ← (splitAt '.' last).mapM byte? with
      | [a, b, c, d] => return (← parts.dropLast.mapM group?) ++ [a * 256 + b, c * 256 + d]
      | _ => none
    else parts.mapM group?

/-- The parts before and after the first pair of colons. -/
def gap? : List Char → Option (List Char × List Char)
  | ':' :: ':' :: rest => some ([], rest)
  | c :: rest => (gap? rest).map fun (before, after) => (c :: before, after)
  | [] => none

/-- An address of eight groups, of which one run of zeros may be left out. -/
def eightGroups? (text : List Char) : Option (List Nat) := do
  match gap? text with
  | some (before, after) =>
    let front ← if before.contains '.' then none else groups? before
    let back ← groups? after
    if front.length + back.length < 8 then
      some (front ++ List.replicate (8 - front.length - back.length) 0 ++ back)
    else none
  | none =>
    let groups ← groups? text
    if groups.length = 8 then some groups else none

/-- The length of the run of zeros that groups begin with. -/
def zeros (groups : List Nat) : Nat := (groups.takeWhile (· = 0)).length

/-- Where the longest run of zeros begins, and its length. -/
def longestRun (groups : List Nat) : Nat × Nat :=
  (List.range groups.length).foldl (fun (best : Nat × Nat) i =>
    let size := zeros (groups.drop i)
    if best.2 < size then (i, size) else best) (0, 1)

def colons (groups : List Nat) : String :=
  ":".intercalate (groups.map fun n => String.ofList (Nat.toDigits 16 n))

/-- Eight groups in brackets. The longest run of zeros is left out. -/
def bracketed (groups : List Nat) : List Char :=
  let (start, size) := longestRun groups
  let text :=
    if size < 2 then colons groups
    else colons (groups.take start) ++ "::" ++ colons (groups.drop (start + size))
  '[' :: text.toList ++ [']']

def isForbidden (c : Char) : Bool :=
  c ≤ ' ' || c = '\x7f' || "%#/:<>?@[\\]^`\x7b|\x7d".contains c

/-- The dots that separate the labels of a name. -/
def isDot (c : Char) : Bool := c = '.' || c = '\u3002' || c = '\uFF0E' || c = '\uFF61'

def label (text : List Char) : List Char :=
  if text.all (·.toNat < 128) then text
  else ['x', 'n', '-', '-'] ++ Text.Punycode.encode text

def name? (text : List Char) : Option (List Char) := do
  let bytes := Text.Percent.decode text
  let chars := (← String.fromUTF8? ⟨bytes.toArray⟩).toList
  let chars := (Text.lowercase (String.ofList chars)).toList
  let chars := chars.map fun c => if isDot c then '.' else c
  if chars.isEmpty ∨ chars.any isForbidden ∨ chars.contains Text.replacement then none
  return ['.'].intercalate ((splitAt '.' chars).map label)

def host? (text : List Char) : Option (List Char) := do
  match text with
  | '[' :: rest =>
    if rest.getLast? = some ']' then (eightGroups? rest.dropLast).map bracketed else none
  | _ =>
    let name ← name? text
    if endsInNumber name then (fourBytes? name).map dotted else some name

end CodeGraph.Web.Address
