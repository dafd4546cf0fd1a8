import CodeGraph.Web.Address

/-! Web addresses: how they are read and their one spelling. -/
namespace CodeGraph

/-- A web address. Its parts are spelled with escapes; the path is a list of segments. -/
structure Url where
  secure : Bool
  user : String
  host : String
  portNumber? : Option Nat
  path : List String
  query? : Option String
  fragment? : Option String
  deriving DecidableEq, Inhabited, Repr

namespace Url

/-- What is left of a text once blanks at its ends and line breaks and tabs are taken away. -/
def tidy (text : List Char) : List Char :=
  let cut := fun (text : List Char) => text.dropWhile (· ≤ ' ')
  ((cut (cut text).reverse).reverse).filter fun c => c ≠ '\t' ∧ c ≠ '\n' ∧ c ≠ '\r'

def isSlash (c : Char) : Bool := c = '/' || c = '\\'

/-- Whether a character ends the part that names the host. -/
def endsAuthority (c : Char) : Bool := isSlash c || c = '?' || c = '#'

def fragmentSet (c : Char) : Bool := " \"<>`".contains c

def pathSet (c : Char) : Bool := fragmentSet c || "#?\x7b\x7d".contains c

def userSet (c : Char) : Bool := pathSet c || "/:;=@[\\]^|".contains c

def querySet (c : Char) : Bool := " \"#<>'".contains c

/-- The scheme of an address, and the text after it: whether it is the secure one. -/
def scheme? (text : List Char) : Option (Bool × List Char) :=
  let name := (text.takeWhile (· ≠ ':')).map Char.toLower
  let rest := (text.dropWhile (· ≠ ':')).drop 1
  if ¬ text.contains ':' then none
  else if name = "http".toList then some (false, rest)
  else if name = "https".toList then some (true, rest)
  else none

/-- The number after the host that a scheme stands for. -/
def defaultPort (secure : Bool) : Nat := if secure then 443 else 80

/-- Splits at the last at sign: the user, if there is one, and the rest. -/
def splitUser (text : List Char) : List Char × List Char :=
  if text.contains '@' then
    let after := (text.reverse.takeWhile (· ≠ '@')).reverse
    (text.take (text.length - after.length - 1), after)
  else ([], text)

def userText (text : List Char) : List Char :=
  let name := Text.Percent.encode userSet (text.takeWhile (· ≠ ':'))
  let password := Text.Percent.encode userSet ((text.dropWhile (· ≠ ':')).drop 1)
  if password.isEmpty then name else name ++ ':' :: password

/-- Splits at the first colon that is not in brackets. -/
def splitPort (bracketed : Bool) : List Char → List Char × List Char
  | [] => ([], [])
  | c :: rest =>
    if c = ':' ∧ ¬ bracketed then ([], c :: rest)
    else
      let bracketed := c = '[' || (bracketed && c ≠ ']')
      let (host, after) := splitPort bracketed rest
      (c :: host, after)

/-- The number after a colon. That of the scheme, or none, is not kept. -/
def readPort? (secure : Bool) : List Char → Option (Option Nat)
  | [] => some none
  | _ :: [] => some none
  | _ :: digits => do
    if ¬ digits.all Char.isDigit then none
    let n ← Web.Address.digits? 10 digits
    if 65535 < n then none
    return if n = defaultPort secure then none else some n

def splitPath (text : List Char) : List (List Char) :=
  Web.Address.splitAt '/' (text.map fun c => if isSlash c then '/' else c)

def isDot (segment : List Char) : Bool :=
  [".", "%2e"].contains (String.ofList (segment.map Char.toLower))

def isUp (segment : List Char) : Bool :=
  ["..", "%2e.", ".%2e", "%2e%2e"].contains (String.ofList (segment.map Char.toLower))

/-- Adds segments to those read so far, which are in reverse. Dots are folded away; where they are
the last segment, an empty one takes their place. -/
def fold (read : List (List Char)) : List (List Char) → List (List Char)
  | [] => read.reverse
  | segment :: rest =>
    let read :=
      if isUp segment then read.drop 1
      else if isDot segment then read
      else Text.Percent.encode pathSet segment :: read
    let dots := isUp segment || isDot segment
    if dots && rest.isEmpty then fold ([] :: read) rest else fold read rest

def pathOf (text : List Char) : List String :=
  let text := match text with
    | c :: rest => if isSlash c then rest else c :: rest
    | [] => []
  (fold [] (splitPath text)).map String.ofList

def ofText? (text : String) : Option Url := do
  let (secure, rest) ← scheme? (tidy text.toList)
  let rest := rest.dropWhile isSlash
  let (user, hostPort) := splitUser (rest.takeWhile (! endsAuthority ·))
  let (host, after) := splitPort false hostPort
  let host ← if host.isEmpty then none else Web.Address.host? host
  let portNumber? ← readPort? secure after
  let rest := rest.dropWhile (! endsAuthority ·)
  let path := rest.takeWhile fun c => c ≠ '?' ∧ c ≠ '#'
  let rest := rest.dropWhile fun c => c ≠ '?' ∧ c ≠ '#'
  let query := rest.takeWhile (· ≠ '#')
  let fragment := rest.dropWhile (· ≠ '#')
  return {
    secure, user := String.ofList (userText user), host := String.ofList host, portNumber?
    path := pathOf path
    query? := if query.isEmpty then none
      else some (String.ofList (Text.Percent.encode querySet (query.drop 1)))
    fragment? := if fragment.isEmpty then none
      else some (String.ofList (Text.Percent.encode fragmentSet (fragment.drop 1))) }

def origin (url : Url) : String :=
  (if url.secure then "https://" else "http://") ++ url.host ++
    url.portNumber?.elim "" fun n => ":" ++ toString n

/-- The path and the query. -/
def target (url : Url) : String :=
  "/" ++ "/".intercalate url.path ++ url.query?.elim "" ("?" ++ ·)

def toText (url : Url) : String :=
  (if url.secure then "https://" else "http://") ++
    (if url.user.isEmpty then "" else url.user ++ "@") ++ url.host ++
    (url.portNumber?.elim "" fun n => ":" ++ toString n) ++ url.target

end Url

end CodeGraph
