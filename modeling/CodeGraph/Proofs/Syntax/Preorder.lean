import CodeGraph.Syntax.Complexity
import Mathlib

/-! Syntax trees in pre-order by recursion, and complexity as one more than the decisions below a
node that the scope counts. -/
namespace CodeGraph.SyntaxTree

mutual
/-- The nodes of a tree, each before those below it. -/
def preorder : SyntaxTree → List SyntaxTree
  | .node kind named span fields => .node kind named span fields :: preorderOf fields

/-- The nodes of some trees, each before those below it. -/
def preorderOf : List (Option String × SyntaxTree) → List SyntaxTree
  | [] => []
  | (_, tree) :: rest => preorder tree ++ preorderOf rest
end

def descendants (tree : SyntaxTree) : List SyntaxTree := preorderOf tree.fields

mutual
/-- The nodes of a tree that a scope counts, each before those below it. The exclusive scope passes
over functions and what is below them. -/
def counted (scope : ComplexityScope) : SyntaxTree → List SyntaxTree
  | .node kind named span fields =>
    if (Construct.of (.node kind named span fields)).isFunction ∧ scope = .exclusive then []
    else .node kind named span fields :: countedOf scope fields

/-- The nodes of some trees that a scope counts, each before those below it. -/
def countedOf (scope : ComplexityScope) : List (Option String × SyntaxTree) → List SyntaxTree
  | [] => []
  | (_, tree) :: rest => counted scope tree ++ countedOf scope rest
end

def decisions (scope : ComplexityScope) (tree : SyntaxTree) : Nat :=
  (countedOf scope tree.fields).countP fun node => (Construct.of node).isDecision

variable {tree child : SyntaxTree}

theorem preorder_eq (tree : SyntaxTree) : tree.preorder = tree :: tree.descendants := by
  obtain ⟨kind, named, span, fields⟩ := tree
  rw [preorder]
  rfl

theorem self_mem_preorder (tree : SyntaxTree) : tree ∈ tree.preorder := by
  rw [preorder_eq]
  exact List.mem_cons_self

theorem descendants_eq (tree : SyntaxTree) :
    tree.descendants = tree.children.flatMap preorder := by
  unfold descendants children
  induction tree.fields with
  | nil => rfl
  | cons entry rest ih =>
    obtain ⟨field, child⟩ := entry
    rw [preorderOf, ih]
    rfl

theorem mem_preorder_of_mem_children {node : SyntaxTree} (hchild : child ∈ tree.children)
    (hnode : node ∈ child.preorder) : node ∈ tree.preorder := by
  rw [preorder_eq, descendants_eq]
  exact List.mem_cons_of_mem _ (List.mem_flatMap.2 ⟨child, hchild, hnode⟩)

theorem mem_children_of_field? {name : String} (h : tree.field? name = some child) :
    child ∈ tree.children := by
  unfold field? at h
  obtain ⟨entry, hentry, rfl⟩ := Option.map_eq_some_iff.1 h
  exact List.mem_map_of_mem (List.mem_of_find?_eq_some hentry)

theorem sizeOf_lt_of_mem_children (h : child ∈ tree.children) : sizeOf child < sizeOf tree := by
  have hlt := totalSize_children_lt tree
  have hle : ∀ trees : List SyntaxTree, child ∈ trees → sizeOf child ≤ totalSize trees := by
    intro trees hmem
    induction trees with
    | nil => cases hmem
    | cons first rest ih =>
      rw [totalSize]
      rcases List.mem_cons.1 hmem with rfl | hrest
      · omega
      · have := ih hrest
        omega
  have := hle tree.children h
  omega

/-- What holds of a tree as soon as it holds of its children holds of all trees. -/
@[elab_as_elim]
theorem induction_children {motive : SyntaxTree → Prop}
    (step : ∀ tree : SyntaxTree, (∀ child ∈ tree.children, motive child) → motive tree)
    (tree : SyntaxTree) : motive tree :=
  step tree fun child _ => induction_children step child
termination_by sizeOf tree
decreasing_by exact sizeOf_lt_of_mem_children ‹_›

theorem counted_eq (scope : ComplexityScope) (tree : SyntaxTree) :
    tree.counted scope =
      if (Construct.of tree).isFunction ∧ scope = .exclusive then []
      else tree :: countedOf scope tree.fields := by
  obtain ⟨kind, named, span, fields⟩ := tree
  rw [counted]
  rfl

theorem countedOf_fields (scope : ComplexityScope) (tree : SyntaxTree) :
    countedOf scope tree.fields = tree.children.flatMap (counted scope) := by
  unfold children
  induction tree.fields with
  | nil => rfl
  | cons entry rest ih =>
    obtain ⟨field, child⟩ := entry
    rw [countedOf, ih]
    rfl

/-- The work list counts the decisions among the nodes that the scope counts. -/
theorem countDecisions_eq (scope : ComplexityScope) (pending : List SyntaxTree) (count : Nat) :
    countDecisions scope pending count =
      count + (pending.flatMap (counted scope)).countP fun node =>
        (Construct.of node).isDecision := by
  fun_induction countDecisions scope pending count with
  | case1 count => simp
  | case2 count tree rest construct hskip ih =>
    rw [ih, List.flatMap_cons, counted_eq, if_pos hskip, List.nil_append]
  | case3 count tree rest construct hskip ih =>
    refine ih.trans ?_
    rw [List.flatMap_append, ← countedOf_fields, List.flatMap_cons, counted_eq, if_neg hskip,
      List.cons_append, List.countP_cons]
    dsimp only [construct]
    split_ifs <;> omega

theorem toNat_complexity (scope : ComplexityScope) (h : tree.decisions scope < 2 ^ 32 - 1) :
    (tree.complexity scope).toNat = 1 + tree.decisions scope := by
  have hcount : countDecisions scope tree.children 0 = tree.decisions scope := by
    rw [countDecisions_eq, ← countedOf_fields, Nat.zero_add]
    rfl
  unfold complexity
  rw [hcount, UInt32.toNat_ofNat_of_lt' (by change _ < 2 ^ 32; omega)]

theorem one_le_complexity (scope : ComplexityScope) (h : tree.decisions scope < 2 ^ 32 - 1) :
    1 ≤ tree.complexity scope := by
  rw [UInt32.le_iff_toNat_le, toNat_complexity scope h]
  exact Nat.le_add_right 1 _

end CodeGraph.SyntaxTree
