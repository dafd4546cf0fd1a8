import CodeGraph.Config.Basic
import CodeGraph.Toml.Reader

/-! Reading a configuration. -/
namespace CodeGraph

namespace Toml.Value

def whole? (limit : Nat) : Value → Option Nat
  | integer n => if 0 ≤ n ∧ n.toNat ≤ limit then some n.toNat else none
  | _ => none

def double? : Value → Option Float
  | double x => some x
  | integer n => some (Float.ofInt n)
  | _ => none

/-- Whether a value has no parts. -/
def isVacant : Value → Bool
  | array [] => true
  | table _ [] => true
  | _ => false

end Toml.Value

namespace ComplexityScope

def ofWord? : String → Option ComplexityScope
  | "inclusive" => some inclusive
  | "exclusive" => some exclusive
  | _ => none

/-- Reads a scope: its word, or a table with the word as its only key and nothing in it. -/
def ofToml? : Toml.Value → Option ComplexityScope
  | .text word => ofWord? word
  | .table _ [(word, value)] => if value.isVacant then ofWord? word else none
  | _ => none

end ComplexityScope

namespace HealthPolicy

def ofValues? (version complexityWeight importWeight linesPerPoint : Toml.Value) :
    Option HealthPolicy := do
  return {
    version := UInt32.ofNat (← version.whole? (UInt32.size - 1))
    complexityWeight := ← complexityWeight.double?
    importWeight := ← importWeight.double?
    linesPerPoint := ← linesPerPoint.double? }

/-- Reads a policy: a table, or an array that begins with its values. -/
def ofToml? : Toml.Value → Option HealthPolicy
  | .table _ entries => do
    ofValues? (← entries.lookup "version") (← entries.lookup "complexity_weight")
      (← entries.lookup "import_weight") (← entries.lookup "loc_divisor")
  | .array (version :: complexityWeight :: importWeight :: linesPerPoint :: _) =>
    ofValues? version complexityWeight importWeight linesPerPoint
  | _ => none

end HealthPolicy

namespace Config

def fileName : String := "codeatlas.toml"

/-- Reads an entry that may be missing. -/
def entry? (entries : Toml.Entries) (key : String) (missing : α) (read : Toml.Value → Option α) :
    Option α :=
  match entries.lookup key with
  | some value => read value
  | none => some missing

/-- Reads the settings; those that are missing keep their defaults, and unknown keys do not
matter. -/
def ofEntries? (entries : Toml.Entries) : Option Config := do
  let limit := UInt64.size - 1
  return {
    maxDepth := ← entry? entries "max_depth" default.maxDepth fun value =>
      (value.whole? limit).map some
    parallel := ← entry? entries "max_parallel_fetches" default.parallel (·.whole? limit)
    timeout := ← entry? entries "timeout_secs" default.timeout fun value =>
      (value.whole? limit).map some
    scope := ← entry? entries "complexity_scope" default.scope ComplexityScope.ofToml?
    health := ← entry? entries "health" default.health HealthPolicy.ofToml? }

def ofText (text : String) : Except ConfigError Config :=
  match (Toml.ofText? text).bind ofEntries? with
  | some config => config.validate
  | none => .error .malformed

end Config

end CodeGraph
