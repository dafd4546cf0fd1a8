/-! Options and words on a command line. -/
namespace CodeGraph.Command

/-- An option: its name, its letter if it has one, and whether it takes a value. -/
structure Switch where
  name : String
  letter? : Option Char
  takesValue : Bool
  deriving DecidableEq, Inhabited, Repr

/-- Why arguments do not make a command: they ask for help, or they are wrong. -/
inductive Refusal where
  | help
  | usage
  deriving DecidableEq, Inhabited, Repr

/-- What arguments can be: the options, the most words, and the words that start a command of
their own. -/
structure Grammar where
  switches : List Switch
  maxWords : Nat
  commands : List String
  deriving Inhabited, Repr

/-- The arguments that have been read: options with their values, words, and what follows from the
start of a command on. -/
structure Parsed where
  values : List (String × String) := []
  words : List String := []
  command : List String := []
  deriving DecidableEq, Inhabited, Repr

namespace Parsed

def has (parsed : Parsed) (name : String) : Bool := parsed.values.any (·.1 = name)

def value? (parsed : Parsed) (name : String) : Option String := parsed.values.lookup name

/-- Adds an option, which may be given once. A value may not be empty. -/
def add (switch : Switch) (value : String) (parsed : Parsed) : Except Refusal Parsed :=
  if parsed.has switch.name ∨ (switch.takesValue ∧ value.isEmpty) then .error .usage
  else .ok { parsed with values := parsed.values ++ [(switch.name, value)] }

def addWord (grammar : Grammar) (word : String) (parsed : Parsed) : Except Refusal Parsed :=
  if parsed.words.length < grammar.maxWords then .ok { parsed with words := parsed.words ++ [word] }
  else .error .usage

def addWords (grammar : Grammar) (words : List String) (parsed : Parsed) : Except Refusal Parsed :=
  words.foldlM (fun parsed word => parsed.addWord grammar word) parsed

end Parsed

def help : Switch := ⟨"help", some 'h', false⟩

/-- Letters of options, the last of which may have its value behind it: the options that have been
read, and one that waits for its value. -/
def readLetters (grammar : Grammar) :
    List Char → Parsed → Except Refusal (Parsed × Option Switch)
  | [], parsed => .ok (parsed, none)
  | letter :: rest, parsed =>
    if help.letter? = some letter then .error .help
    else
      match grammar.switches.find? (·.letter? = some letter) with
      | none => .error .usage
      | some switch =>
        if switch.takesValue then
          match rest with
          | [] => .ok (parsed, some switch)
          | '=' :: value => return (← parsed.add switch (String.ofList value), none)
          | value => return (← parsed.add switch (String.ofList value), none)
        else do readLetters grammar rest (← parsed.add switch "")

/-- An option by its name, which may have its value behind it. -/
def readName (grammar : Grammar) (text : List Char) (parsed : Parsed) :
    Except Refusal (Parsed × Option Switch) :=
  let name := String.ofList (text.takeWhile (· ≠ '='))
  let value? := if text.contains '=' then some (String.ofList ((text.dropWhile (· ≠ '=')).drop 1))
    else none
  match (help :: grammar.switches).find? (·.name = name), value? with
  | none, _ => .error .usage
  | some switch, some value =>
    if switch.takesValue then return (← parsed.add switch value, none) else .error .usage
  | some switch, none =>
    if switch = help then .error .help
    else if switch.takesValue then .ok (parsed, some switch)
    else return (← parsed.add switch "", none)

/-- What kind of argument an argument is: options by letter, an option by name, the mark after
which all are words, or a word. -/
inductive ArgumentKind where
  | letters (text : List Char)
  | name (text : List Char)
  | wordsOnly
  | word

def ArgumentKind.of (argument : String) : ArgumentKind :=
  match argument.toList with
  | ['-', '-'] => wordsOnly
  | '-' :: '-' :: text => name text
  | ['-'] => word
  | '-' :: text => letters text
  | _ => word

/-- Reads arguments, given the option that waits for its value. -/
def read (grammar : Grammar) : Option Switch → List String → Parsed → Except Refusal Parsed
  | none, [], parsed => .ok parsed
  | some _, [], _ => .error .usage
  | some switch, argument :: rest, parsed =>
    match ArgumentKind.of argument with
    | .word => do read grammar none rest (← parsed.add switch argument)
    | _ => .error .usage
  | none, argument :: rest, parsed =>
    if grammar.commands.contains argument then .ok { parsed with command := argument :: rest }
    else
      match ArgumentKind.of argument with
      | .wordsOnly => parsed.addWords grammar rest
      | .word => do read grammar none rest (← parsed.addWord grammar argument)
      | .name text => do
        let (parsed, waiting?) ← readName grammar text parsed
        read grammar waiting? rest parsed
      | .letters text => do
        let (parsed, waiting?) ← readLetters grammar text parsed
        read grammar waiting? rest parsed

def Grammar.parse (grammar : Grammar) (arguments : List String) : Except Refusal Parsed :=
  read grammar none arguments {}

end CodeGraph.Command
