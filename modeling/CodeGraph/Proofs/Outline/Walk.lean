import CodeGraph.Outline.Finding
import CodeGraph.Proofs.Syntax.Preorder

/-! What is found in a syntax tree, by recursion: what a node is found to be, then what is found
below it, child by child. The work list finds the same. -/
namespace CodeGraph.Finding

variable {source : String} {scope : ComplexityScope} {site child : Site}

def imported? : Finding → Option String
  | imported specifier => some specifier
  | _ => none

def type? : Finding → Option TypeOutline
  | type outline => some outline
  | _ => none

def function? : Finding → Option FunctionOutline
  | function outline => some outline
  | _ => none

def call? : Finding → Option CallSite
  | call site => some site
  | _ => none

/-- What a node is found to be, apart from its function by cases of its construct. -/
theorem findings_eq (site : Site) : site.findings source scope =
    match Construct.of site.tree with
    | .importStatement =>
      (((site.tree.field? "source").bind (·.quoted? source)).map imported).toList
    | .call =>
      ((required? source site.tree).map imported).toList ++
        (site.enclosing?.bind fun caller =>
          (callee? source site.tree).map fun callee => call ⟨caller, callee⟩).toList
    | .classDeclaration =>
      [type (typeOutline source site.tree ((name? source site.tree).getD anonymous))]
    | .classExpression =>
      if site.isDefault then [type (typeOutline source site.tree anonymous)] else []
    | _ =>
      ((site.declared? source).map fun declared =>
        function ⟨declared.1, declared.2.complexity scope⟩).toList := by
  unfold Site.findings
  cases Construct.of site.tree with
  | importStatement => rfl
  | call => cases site.enclosing? <;> cases callee? source site.tree <;> rfl
  | classDeclaration => rfl
  | classExpression => rfl
  | _ => cases site.declared? source <;> rfl

namespace Site

theorem tree_mem_of_mem_children (h : child ∈ site.children source) :
    child.tree ∈ site.tree.children := by
  obtain ⟨tree, htree, rfl⟩ := List.mem_map.1 h
  exact htree

/-- What is found at a node and below it, each node before those below it. -/
def walk (source : String) (scope : ComplexityScope) (site : Site) : List Finding :=
  site.findings source scope ++
    (site.children source).attach.flatMap fun child => child.1.walk source scope
termination_by sizeOf site.tree
decreasing_by exact SyntaxTree.sizeOf_lt_of_mem_children (tree_mem_of_mem_children child.2)

theorem walk_eq (source : String) (scope : ComplexityScope) (site : Site) :
    site.walk source scope =
      site.findings source scope ++ (site.children source).flatMap (walk source scope) := by
  rw [walk]
  simp

end Site

theorem collect_eq (source : String) (scope : ComplexityScope) (pending : List Site)
    (found : List Finding) :
    collect source scope pending found =
      found.reverse ++ pending.flatMap (Site.walk source scope) := by
  fun_induction collect source scope pending found with
  | case1 found => simp
  | case2 found site rest ih =>
    rw [ih, List.flatMap_append, List.flatMap_cons, Site.walk_eq]
    simp

/-- The work list finds what the recursion finds. -/
theorem ofTree_eq (source : String) (scope : ComplexityScope) (tree : SyntaxTree) :
    ofTree source scope tree = Site.walk source scope ⟨tree, none, false⟩ := by
  unfold ofTree
  rw [collect_eq]
  simp

end CodeGraph.Finding
