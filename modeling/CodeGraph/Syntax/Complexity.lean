import CodeGraph.Syntax.Construct

/-! Cyclomatic complexity: one more than the decisions of a function. -/
namespace CodeGraph

/-- Whether the decisions of nested functions count. -/
inductive ComplexityScope where
  | inclusive
  | exclusive
  deriving DecidableEq, Inhabited, Repr

namespace ComplexityScope

def word : ComplexityScope → String
  | inclusive => "inclusive"
  | exclusive => "exclusive"

end ComplexityScope

namespace SyntaxTree

/-- Counts the decisions among some trees. Nested functions are passed over if the scope says so. -/
def countDecisions (scope : ComplexityScope) (pending : List SyntaxTree) (count : Nat) : Nat :=
  match pending with
  | [] => count
  | tree :: rest =>
    let construct := Construct.of tree
    if construct.isFunction ∧ scope = .exclusive then countDecisions scope rest count
    else
      countDecisions scope (tree.children ++ rest)
        (if construct.isDecision then count + 1 else count)
termination_by totalSize pending
decreasing_by
  · have : 0 < sizeOf tree := by obtain ⟨⟩ := tree; simp +arith
    simp only [totalSize]
    omega
  · have := totalSize_children_lt tree
    simp only [totalSize_append, totalSize]
    omega

def complexity (scope : ComplexityScope) (function : SyntaxTree) : UInt32 :=
  UInt32.ofNat (1 + countDecisions scope function.children 0)

end SyntaxTree

end CodeGraph
