import CodeGraph.Command.Options

/-! The commands of the program. -/
namespace CodeGraph

/-- What is analysed and where the report goes: the target, a document with a tree, the file for
the report, and whether a kept graph is passed over. -/
structure AnalyzeRequest where
  target? : Option String
  tree? : Option String
  output? : Option String
  refresh : Bool
  deriving DecidableEq, Inhabited, Repr

inductive Command where
  | analyze (request : AnalyzeRequest)
  | clear
  | version
  deriving DecidableEq, Inhabited, Repr

/-- A command with the folder that holds the configuration and the kept graphs. -/
structure Invocation where
  root : String
  command : Command
  deriving DecidableEq, Inhabited, Repr

namespace Command

/-- What may stand before a command. -/
def outerGrammar : Grammar :=
  { switches := [⟨"verbose", some 'v', false⟩, ⟨"root", some 'r', true⟩]
    maxWords := 0
    commands := ["analyze", "clear", "version", "help"] }

def analyzeGrammar : Grammar :=
  { switches := [⟨"tree", none, true⟩, ⟨"output", some 'o', true⟩, ⟨"refresh", none, false⟩]
    maxWords := 1
    commands := [] }

def bareGrammar : Grammar := { switches := [], maxWords := 0, commands := [] }

/-- The request that arguments make. A target and a tree exclude each other. -/
def request (parsed : Parsed) : Except Refusal AnalyzeRequest :=
  if parsed.has "tree" ∧ ¬ parsed.words.isEmpty then .error .usage
  else .ok {
    target? := parsed.words.head?
    tree? := parsed.value? "tree"
    output? := parsed.value? "output"
    refresh := parsed.has "refresh" }

/-- The help for a command is asked for by at most one name. -/
def helpFor : List String → Refusal
  | [] => .help
  | [name] => if outerGrammar.commands.contains name then .help else .usage
  | _ => .usage

def ofArguments : List String → Except Refusal Command
  | [] => .error .usage
  | name :: arguments =>
    match name with
    | "analyze" => do return .analyze (← request (← analyzeGrammar.parse arguments))
    | "clear" => do
      let _ ← bareGrammar.parse arguments
      return .clear
    | "version" => do
      let _ ← bareGrammar.parse arguments
      return .version
    | "help" => .error (helpFor arguments)
    | _ => .error .usage

end Command

def Invocation.ofArguments (arguments : List String) : Except Command.Refusal Invocation := do
  let parsed ← Command.outerGrammar.parse arguments
  return { root := (parsed.value? "root").getD ".", command := ← Command.ofArguments parsed.command }

end CodeGraph
