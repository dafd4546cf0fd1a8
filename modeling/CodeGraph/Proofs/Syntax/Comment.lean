import CodeGraph.Proofs.Syntax.Preorder

/-! Syntax trees without their comments: fields, constructs and complexity stay as they are. -/
namespace CodeGraph.SyntaxTree

def isComment (tree : SyntaxTree) : Bool := tree.kind = "comment"

mutual
def withoutComments : SyntaxTree → SyntaxTree
  | .node kind named span fields => .node kind named span (withoutCommentsOf fields)

/-- Some trees that are no comments, each without the comments below it. -/
def withoutCommentsOf : List (Option String × SyntaxTree) → List (Option String × SyntaxTree)
  | [] => []
  | (field, tree) :: rest =>
    if tree.isComment then withoutCommentsOf rest
    else (field, withoutComments tree) :: withoutCommentsOf rest
end

/-- Comments stand between the other nodes: none is the value of a field, and none has nodes below
it. -/
structure CommentsApart (tree : SyntaxTree) : Prop where
  unlabelled : ∀ node ∈ tree.preorder, ∀ entry ∈ node.fields, entry.2.isComment → entry.1 = none
  childless : ∀ node ∈ tree.preorder, node.isComment → node.fields = []

variable {tree child : SyntaxTree} {name : String}

theorem preorder_subset_of_mem {node : SyntaxTree} (h : node ∈ tree.preorder) :
    node.preorder ⊆ tree.preorder := by
  induction tree using induction_children with
  | step tree ih =>
    rw [preorder_eq, descendants_eq, List.mem_cons, List.mem_flatMap] at h
    rcases h with rfl | ⟨child, hchild, hnode⟩
    · exact List.Subset.refl _
    · exact fun other hother => mem_preorder_of_mem_children hchild (ih child hchild hnode hother)

theorem CommentsApart.of_mem {node : SyntaxTree} (h : tree.CommentsApart)
    (hnode : node ∈ tree.preorder) : node.CommentsApart :=
  ⟨fun other hother => h.unlabelled other (preorder_subset_of_mem hnode hother),
    fun other hother => h.childless other (preorder_subset_of_mem hnode hother)⟩

theorem CommentsApart.of_mem_children (h : tree.CommentsApart) (hchild : child ∈ tree.children) :
    child.CommentsApart :=
  h.of_mem (mem_preorder_of_mem_children hchild (self_mem_preorder child))

@[simp] theorem kind_withoutComments (tree : SyntaxTree) : tree.withoutComments.kind = tree.kind := by
  obtain ⟨kind, named, span, fields⟩ := tree
  rfl

@[simp] theorem named_withoutComments (tree : SyntaxTree) :
    tree.withoutComments.named = tree.named := by
  obtain ⟨kind, named, span, fields⟩ := tree
  rfl

@[simp] theorem text_withoutComments (source : String) (tree : SyntaxTree) :
    tree.withoutComments.text source = tree.text source := by
  obtain ⟨kind, named, span, fields⟩ := tree
  rfl

@[simp] theorem quoted?_withoutComments (source : String) (tree : SyntaxTree) :
    tree.withoutComments.quoted? source = tree.quoted? source := by
  unfold quoted?
  rw [kind_withoutComments, text_withoutComments]

theorem fields_withoutComments (tree : SyntaxTree) : tree.withoutComments.fields =
    (tree.fields.filter (! ·.2.isComment)).map fun entry => (entry.1, entry.2.withoutComments) := by
  obtain ⟨kind, named, span, fields⟩ := tree
  change withoutCommentsOf fields = _
  simp only [SyntaxTree.fields]
  induction fields with
  | nil => rfl
  | cons entry rest ih =>
    obtain ⟨field, child⟩ := entry
    rw [withoutCommentsOf, ih]
    by_cases hcomment : child.isComment = true
    · rw [if_pos hcomment, List.filter_cons_of_neg (by simpa using hcomment)]
    · rw [if_neg hcomment, List.filter_cons_of_pos (by simpa using hcomment), List.map_cons]

theorem children_withoutComments (tree : SyntaxTree) : tree.withoutComments.children =
    (tree.children.filter (! ·.isComment)).map withoutComments := by
  unfold children
  rw [fields_withoutComments, List.filter_map, List.map_map, List.map_map]
  rfl

theorem namedChildren_withoutComments (tree : SyntaxTree) : tree.withoutComments.namedChildren =
    (tree.namedChildren.filter (! ·.isComment)).map withoutComments := by
  unfold namedChildren
  rw [children_withoutComments, List.filter_map, List.filter_filter, List.filter_filter]
  refine congrArg (List.map _) (List.filter_congr fun child _ => ?_)
  rw [Function.comp_apply, named_withoutComments, Bool.and_comm]

/-- A first named child that is no comment stays the first. -/
theorem head?_namedChildren_withoutComments
    (h : ∀ child ∈ tree.namedChildren.head?, ¬ child.isComment) :
    tree.withoutComments.namedChildren.head? = tree.namedChildren.head?.map withoutComments := by
  rw [namedChildren_withoutComments]
  cases hchildren : tree.namedChildren with
  | nil => rfl
  | cons child rest =>
    have hchild : ¬ child.isComment := h child (by rw [hchildren]; rfl)
    rw [List.filter_cons_of_pos (by simpa using hchild)]
    rfl

theorem find?_namedChildren_withoutComments {kind : String} (hkind : kind ≠ "comment") :
    tree.withoutComments.namedChildren.find? (·.kind = kind) =
      (tree.namedChildren.find? (·.kind = kind)).map withoutComments := by
  rw [namedChildren_withoutComments, List.find?_map, List.find?_filter]
  refine congrArg (Option.map withoutComments) (congrArg (List.find? · _) (funext fun child => ?_))
  simp only [Function.comp_apply, kind_withoutComments, isComment]
  by_cases h : child.kind = kind
  · simp [h, hkind]
  · simp [h]

/-- Fields keep their values. -/
theorem CommentsApart.field?_eq (h : tree.CommentsApart) (name : String) :
    tree.withoutComments.field? name = (tree.field? name).map withoutComments := by
  have hroot := h.unlabelled tree (self_mem_preorder tree)
  unfold field?
  rw [fields_withoutComments]
  generalize tree.fields = fields at hroot
  induction fields with
  | nil => rfl
  | cons entry rest ih =>
    have hrest := ih fun other hother => hroot other (List.mem_cons_of_mem _ hother)
    by_cases hcomment : entry.2.isComment = true
    · have hnone : entry.1 = none := hroot entry List.mem_cons_self hcomment
      rw [List.filter_cons_of_neg (by simpa using hcomment), hrest,
        List.find?_cons_of_neg (by simp [hnone])]
    · rw [List.filter_cons_of_pos (by simpa using hcomment), List.map_cons]
      by_cases hname : entry.1 = some name
      · rw [List.find?_cons_of_pos (by simpa using hname),
          List.find?_cons_of_pos (by simpa using hname)]
        rfl
      · rw [List.find?_cons_of_neg (by simpa using hname),
          List.find?_cons_of_neg (by simpa using hname), hrest]

theorem CommentsApart.construct_eq (h : tree.CommentsApart) :
    Construct.of tree.withoutComments = Construct.of tree := by
  have hoperator : (tree.withoutComments.field? "operator").map (·.kind) =
      (tree.field? "operator").map (·.kind) := by
    rw [h.field?_eq, Option.map_map]
    exact congrArg (Option.map · _) (funext kind_withoutComments)
  unfold Construct.of
  simp only [kind_withoutComments, named_withoutComments, hoperator]

theorem construct_of_isComment (h : tree.isComment) : Construct.of tree = .other := by
  have hkind : tree.kind = "comment" := of_decide_eq_true h
  unfold Construct.of
  rw [hkind]
  rfl

/-- The decisions among the nodes of a tree that a scope counts, as constructs. -/
private def decisionsOf (scope : ComplexityScope) (tree : SyntaxTree) : List Construct :=
  ((tree.counted scope).map Construct.of).filter Construct.isDecision

private theorem decisionsOf_eq (scope : ComplexityScope) (tree : SyntaxTree) :
    tree.decisionsOf scope =
      if (Construct.of tree).isFunction ∧ scope = .exclusive then []
      else [Construct.of tree].filter Construct.isDecision ++
        tree.children.flatMap (decisionsOf scope) := by
  unfold decisionsOf
  rw [counted_eq]
  split_ifs
  · rfl
  · rw [countedOf_fields, List.map_cons, ← List.singleton_append, List.filter_append,
      List.map_flatMap, List.filter_flatMap]

private theorem CommentsApart.decisionsOf_comment (h : tree.CommentsApart)
    (hcomment : tree.isComment) (scope : ComplexityScope) : tree.decisionsOf scope = [] := by
  have hchildren : tree.children = [] := by
    rw [children, h.childless tree (self_mem_preorder tree) hcomment, List.map_nil]
  rw [decisionsOf_eq, hchildren, construct_of_isComment hcomment]
  split_ifs <;> rfl

/-- What comments have no part in is collected just as without comments. -/
theorem flatMap_withoutComments {α : Type} {trees : List SyntaxTree} (f : SyntaxTree → List α)
    (hcomment : ∀ tree ∈ trees, tree.isComment → f tree = [])
    (hsame : ∀ tree ∈ trees, f tree.withoutComments = f tree) :
    ((trees.filter (! ·.isComment)).map withoutComments).flatMap f = trees.flatMap f := by
  rw [List.flatMap_map]
  induction trees with
  | nil => rfl
  | cons tree rest ih =>
    have hrest := ih (fun other hother => hcomment other (List.mem_cons_of_mem _ hother))
      fun other hother => hsame other (List.mem_cons_of_mem _ hother)
    by_cases h : tree.isComment = true
    · rw [List.filter_cons_of_neg (by simpa using h), hrest, List.flatMap_cons,
        hcomment tree List.mem_cons_self h, List.nil_append]
    · rw [List.filter_cons_of_pos (by simpa using h), List.flatMap_cons, hrest, List.flatMap_cons,
        hsame tree List.mem_cons_self]

private theorem CommentsApart.decisionsOf_withoutComments (h : tree.CommentsApart)
    (scope : ComplexityScope) : tree.withoutComments.decisionsOf scope = tree.decisionsOf scope := by
  induction tree using induction_children with
  | step tree ih =>
    rw [decisionsOf_eq, decisionsOf_eq scope tree, h.construct_eq, children_withoutComments,
      flatMap_withoutComments]
    · exact fun child hchild hcomment =>
        (h.of_mem_children hchild).decisionsOf_comment hcomment scope
    · exact fun child hchild => ih child hchild (h.of_mem_children hchild)

/-- Comments add nothing to the complexity of a function. -/
theorem CommentsApart.complexity_eq (h : tree.CommentsApart) (scope : ComplexityScope) :
    tree.withoutComments.complexity scope = tree.complexity scope := by
  have hcount : ∀ tree : SyntaxTree, countDecisions scope tree.children 0 =
      (tree.children.flatMap (decisionsOf scope)).length := by
    intro tree
    rw [countDecisions_eq, Nat.zero_add, List.countP_flatMap, List.length_flatMap]
    refine congrArg List.sum (List.map_congr_left fun child _ => ?_)
    rw [Function.comp_apply, decisionsOf, ← List.countP_eq_length_filter, List.countP_map]
    rfl
  unfold complexity
  rw [hcount, hcount, children_withoutComments, flatMap_withoutComments]
  · exact fun child hchild hcomment =>
      (h.of_mem_children hchild).decisionsOf_comment hcomment scope
  · exact fun child hchild => (h.of_mem_children hchild).decisionsOf_withoutComments scope

end CodeGraph.SyntaxTree
