import CodeGraph.Command.Analyze

/-! Running a command line. -/
namespace CodeGraph

/-- How a run ends: with a text to print, with a failure, or without a command. -/
inductive Outcome where
  | printed (text : String)
  | failed (failure : Failure)
  | refused (refusal : Command.Refusal)
  deriving DecidableEq, Inhabited, Repr

namespace Outcome

def status : Outcome → Nat
  | printed _ => 0
  | failed _ => 1
  | refused .help => 0
  | refused .usage => 2

def ofResult : Except Failure String → Outcome
  | .ok text => printed text
  | .error failure => failed failure

end Outcome

namespace Invocation

variable {m : Type → Type} [Monad m]

def run (parse : Analysis.Parse) (host : Host m) (invocation : Invocation) :
    m (Except Failure String) := do
  match invocation.command with
  | .analyze request => request.run parse host invocation.root
  | .clear => return ((← Cache.clear host invocation.root).mapError .disk).map fun () => ""
  | .version => return .ok ("CodeAtlas v" ++ CachedGraph.currentVersion ++ "\n")

end Invocation

def runArguments {m : Type → Type} [Monad m] (parse : Analysis.Parse) (host : Host m)
    (arguments : List String) : m Outcome := do
  match Invocation.ofArguments arguments with
  | .error refusal => return .refused refusal
  | .ok invocation => return .ofResult (← invocation.run parse host)

end CodeGraph
