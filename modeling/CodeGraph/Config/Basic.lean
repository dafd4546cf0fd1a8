import CodeGraph.Graph.Health
import CodeGraph.Syntax.Complexity

/-! How an analysis is configured. -/
namespace CodeGraph

structure Config where
  /-- How many folders deep the tree is entered. -/
  maxDepth : Option Nat := some 3
  /-- How many files are worked on at the same time. -/
  parallel : Nat := 8
  /-- After how many seconds the analysis is given up. -/
  timeout : Option Nat := none
  scope : ComplexityScope := .inclusive
  health : HealthPolicy := .first
  deriving Inhabited, BEq

inductive ConfigError where
  | malformed
  | noParallel
  | noLinesPerPoint
  deriving DecidableEq, Inhabited, Repr

namespace ConfigError

/-- The error in words, where the words are its own. -/
def message? : ConfigError → Option String
  | malformed => none
  | noParallel => some "invalid configuration: max_parallel_fetches must be at least 1"
  | noLinesPerPoint => some "invalid configuration: health.loc_divisor must be positive"

end ConfigError

namespace Config

def default : Config := {}

def validate (config : Config) : Except ConfigError Config :=
  if config.parallel = 0 then .error .noParallel
  else if config.health.linesPerPoint > 0.0 then .ok config
  else .error .noLinesPerPoint

end Config

end CodeGraph
