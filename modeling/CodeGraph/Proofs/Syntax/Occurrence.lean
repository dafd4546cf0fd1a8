import CodeGraph.Proofs.Syntax.Preorder

/-! The nodes of a syntax tree at their places: each with the nodes above it, in pre-order. -/
namespace CodeGraph.SyntaxTree

/-- A node at its place in a tree: the nodes above it, the nearest first. -/
structure Occurrence where
  tree : SyntaxTree
  above : List SyntaxTree

mutual
/-- The nodes of a tree at their places below some nodes, each before those below it. -/
def occurrences (above : List SyntaxTree) : SyntaxTree → List Occurrence
  | .node kind named span fields =>
    ⟨.node kind named span fields, above⟩ ::
      occurrencesOf (.node kind named span fields :: above) fields

def occurrencesOf (above : List SyntaxTree) : List (Option String × SyntaxTree) → List Occurrence
  | [] => []
  | (_, tree) :: rest => occurrences above tree ++ occurrencesOf above rest
end

namespace Occurrence

def children (place : Occurrence) : List Occurrence :=
  place.tree.children.map fun child => ⟨child, place.tree :: place.above⟩

/-- A node and those below it at their places, in pre-order. -/
def reach (place : Occurrence) : List Occurrence := place.tree.occurrences place.above

theorem reach_eq (place : Occurrence) : place.reach = place :: place.children.flatMap reach := by
  obtain ⟨⟨kind, named, span, fields⟩, above⟩ := place
  have hbelow : ∀ above fields,
      occurrencesOf above fields = fields.flatMap fun entry => occurrences above entry.2 := by
    intro above fields
    induction fields with
    | nil => rfl
    | cons entry rest ih => rw [occurrencesOf, ih, List.flatMap_cons]
  unfold reach children SyntaxTree.children
  rw [occurrences, hbelow, List.flatMap_map, List.flatMap_map]
  rfl

theorem map_tree_reach (place : Occurrence) : place.reach.map (·.tree) = place.tree.preorder := by
  obtain ⟨tree, above⟩ := place
  induction tree using induction_children generalizing above with
  | step tree ih =>
    rw [reach_eq, List.map_cons, preorder_eq, descendants_eq, List.map_flatMap, children,
      List.flatMap_map]
    refine congrArg (tree :: ·) (List.flatMap_congr fun child hchild => ?_)
    exact ih child hchild (tree :: above)

theorem countP_reach (test : Occurrence → Bool) (place : Occurrence) :
    place.reach.countP test = (place.children.map fun child => child.reach.countP test).sum +
      if test place then 1 else 0 := by
  rw [reach_eq, List.countP_cons, List.countP_flatMap]
  rfl

end Occurrence

end CodeGraph.SyntaxTree
