import CodeGraph.Proofs.Syntax.Occurrence

/-! The decisions below a function by scope: the count comes out the same in whatever order pending
nodes are taken up, and the decisions that the inclusive scope counts are shared out among the
function and the functions below it. -/
namespace CodeGraph.SyntaxTree

/-- The nodes strictly below a node, each with those above it up to this node. -/
def placesBelow (tree : SyntaxTree) : List Occurrence := (tree.occurrences []).tail

def hasNoFunction (trees : List SyntaxTree) : Bool :=
  trees.all fun tree => ! (Construct.of tree).isFunction

namespace Occurrence

def isDecision (place : Occurrence) : Bool := (Construct.of place.tree).isDecision

def isFunction (place : Occurrence) : Bool := (Construct.of place.tree).isFunction

/-- Whether no function stands strictly between the node at the top and a place below it. -/
def isDirect (place : Occurrence) : Bool := hasNoFunction place.above.dropLast

end Occurrence

variable {tree : SyntaxTree} {scope : ComplexityScope}

theorem countP_placesBelow (test : Occurrence → Bool) (tree : SyntaxTree) :
    tree.placesBelow.countP test =
      (tree.children.map fun child => (Occurrence.reach ⟨child, [tree]⟩).countP test).sum := by
  have hplaces : tree.placesBelow = (Occurrence.children ⟨tree, []⟩).flatMap Occurrence.reach :=
    congrArg List.tail (Occurrence.reach_eq ⟨tree, []⟩)
  rw [hplaces, List.countP_flatMap, Occurrence.children, List.map_map]
  rfl

theorem map_tree_placesBelow (tree : SyntaxTree) :
    tree.placesBelow.map (·.tree) = tree.descendants := by
  have hreach := Occurrence.map_tree_reach ⟨tree, []⟩
  rw [preorder_eq] at hreach
  rw [placesBelow, List.map_tail]
  exact congrArg List.tail hreach

def decisionsAt (scope : ComplexityScope) (tree : SyntaxTree) : Nat :=
  (tree.counted scope).countP fun node => (Construct.of node).isDecision

theorem decisions_eq_sum (scope : ComplexityScope) (tree : SyntaxTree) :
    tree.decisions scope = (tree.children.map (decisionsAt scope)).sum := by
  unfold decisions
  rw [countedOf_fields, List.countP_flatMap]
  rfl

theorem decisionsAt_of_skip (h : (Construct.of tree).isFunction ∧ scope = .exclusive) :
    tree.decisionsAt scope = 0 := by
  rw [decisionsAt, counted_eq, if_pos h, List.countP_nil]

theorem decisionsAt_of_enter (h : ¬ ((Construct.of tree).isFunction ∧ scope = .exclusive)) :
    tree.decisionsAt scope =
      tree.decisions scope + if (Construct.of tree).isDecision then 1 else 0 := by
  rw [decisionsAt, counted_eq, if_neg h, List.countP_cons]
  rfl

theorem isDecision_of_isFunction {construct : Construct} (h : construct.isFunction) :
    construct.isDecision = false := by
  cases construct with
  | function form => rfl
  | _ => cases h

theorem totalSize_perm {trees others : List SyntaxTree} (h : trees.Perm others) :
    totalSize trees = totalSize others := by
  induction h with
  | nil => rfl
  | cons tree _ ih => rw [totalSize, totalSize, ih]
  | swap first second rest => simp only [totalSize, Nat.add_left_comm]
  | trans _ _ ih ih' => exact ih.trans ih'

/-- What is pending in a count, and what has been counted. -/
structure Tally where
  pending : List SyntaxTree
  count : Nat := 0

namespace Tally

def start (tree : SyntaxTree) : Tally := { pending := tree.children }

/-- One turn of a count. Any node that is pending is taken up. A function is passed over if the scope
says so; any other node is counted if it is a decision, and its children get in among what is
pending. -/
inductive Turn (scope : ComplexityScope) : Tally → Tally → Prop
  | pass {pending rest : List SyntaxTree} {count : Nat} {tree : SyntaxTree}
      (taken : pending.Perm (tree :: rest))
      (skipped : (Construct.of tree).isFunction ∧ scope = .exclusive) :
      Turn scope ⟨pending, count⟩ ⟨rest, count⟩
  | enter {pending rest more : List SyntaxTree} {count : Nat} {tree : SyntaxTree}
      (taken : pending.Perm (tree :: rest))
      (entered : ¬ ((Construct.of tree).isFunction ∧ scope = .exclusive))
      (added : more.Perm (tree.children ++ rest)) :
      Turn scope ⟨pending, count⟩
        ⟨more, if (Construct.of tree).isDecision then count + 1 else count⟩

/-- What a count comes to in the end. -/
def total (scope : ComplexityScope) (tally : Tally) : Nat :=
  tally.count + (tally.pending.map (decisionsAt scope)).sum

variable {tally next : Tally}

theorem Turn.totalSize_lt (h : Turn scope tally next) :
    totalSize next.pending < totalSize tally.pending := by
  cases h with
  | @pass pending rest count tree taken skipped =>
    have hpos : 0 < sizeOf tree := Nat.zero_lt_of_lt (totalSize_children_lt tree)
    have hsize := totalSize_perm taken
    rw [totalSize] at hsize
    dsimp only
    omega
  | @enter pending rest more count tree taken entered added =>
    have hchildren := totalSize_children_lt tree
    have hsize := totalSize_perm taken
    have hmore := totalSize_perm added
    rw [totalSize] at hsize
    rw [totalSize_append] at hmore
    dsimp only
    omega

/-- No count goes on forever. -/
theorem wellFounded_turn : WellFounded fun next tally => Turn scope tally next :=
  Subrelation.wf Turn.totalSize_lt (measure fun tally : Tally => totalSize tally.pending).wf

theorem Turn.total_eq (h : Turn scope tally next) : next.total scope = tally.total scope := by
  cases h with
  | @pass pending rest count tree taken skipped =>
    have htaken := (taken.map (decisionsAt scope)).sum_eq
    rw [List.map_cons, List.sum_cons, decisionsAt_of_skip skipped, Nat.zero_add] at htaken
    rw [total, total, htaken]
  | @enter pending rest more count tree taken entered added =>
    have htaken := (taken.map (decisionsAt scope)).sum_eq
    have hadded := (added.map (decisionsAt scope)).sum_eq
    rw [List.map_cons, List.sum_cons, decisionsAt_of_enter entered] at htaken
    rw [List.map_append, List.sum_append, ← decisions_eq_sum] at hadded
    rw [total, total, htaken, hadded]
    dsimp only
    split_ifs <;> omega

theorem total_eq_of_turns (h : Relation.ReflTransGen (Turn scope) (start tree) tally) :
    tally.total scope = tree.decisions scope := by
  induction h with
  | refl => rw [total, start, Nat.zero_add, decisions_eq_sum]
  | tail _ hturn ih => rw [hturn.total_eq, ih]

theorem exists_turn (scope : ComplexityScope) (h : tally.pending ≠ []) :
    ∃ next, Turn scope tally next := by
  obtain ⟨pending, count⟩ := tally
  obtain ⟨tree, rest, rfl⟩ := List.exists_cons_of_ne_nil h
  by_cases hskip : (Construct.of tree).isFunction ∧ scope = .exclusive
  · exact ⟨_, .pass (.refl _) hskip⟩
  · exact ⟨_, .enter (.refl _) hskip (.refl _)⟩

/-- A count that can go no further has counted all decisions. -/
theorem count_eq_of_turns (h : Relation.ReflTransGen (Turn scope) (start tree) tally)
    (hend : ∀ next, ¬ Turn scope tally next) : tally.count = tree.decisions scope := by
  have hpending : tally.pending = [] := by
    by_contra hopen
    exact (exists_turn scope hopen).elim hend
  rw [← total_eq_of_turns h, total, hpending]
  rfl

/-- The work list is a count in which the first node is taken up each time. -/
theorem turns_countDecisions (scope : ComplexityScope) (pending : List SyntaxTree) (count : Nat) :
    Relation.ReflTransGen (Turn scope) ⟨pending, count⟩
      ⟨[], countDecisions scope pending count⟩ := by
  fun_induction countDecisions scope pending count with
  | case1 count => exact .refl
  | case2 count tree rest construct hskip ih => exact .head (.pass (.refl _) hskip) ih
  | case3 count tree rest construct hskip ih =>
    exact .head (.enter (.refl _) hskip (.refl _)) ih

end Tally

theorem counted_inclusive (tree : SyntaxTree) : tree.counted .inclusive = tree.preorder := by
  induction tree using induction_children with
  | step tree ih =>
    rw [counted_eq, if_neg (by simp), preorder_eq, countedOf_fields, descendants_eq]
    exact congrArg (tree :: ·) (List.flatMap_congr ih)

theorem decisions_inclusive (tree : SyntaxTree) :
    tree.decisions .inclusive = tree.placesBelow.countP (·.isDecision) := by
  have hbelow : tree.placesBelow.countP (·.isDecision) =
      tree.descendants.countP fun node => (Construct.of node).isDecision := by
    rw [← map_tree_placesBelow, List.countP_map]
    rfl
  unfold decisions
  rw [hbelow, countedOf_fields, descendants_eq]
  exact congrArg (List.countP _) (List.flatMap_congr fun child _ => counted_inclusive child)

/-- Below nodes without a function among them, the direct decisions are those that the exclusive
scope counts; below other nodes no decision is direct. -/
theorem countP_direct_reach (top tree : SyntaxTree) (near : List SyntaxTree) :
    (Occurrence.reach ⟨tree, near ++ [top]⟩).countP (fun place =>
        place.isDecision && place.isDirect) =
      if hasNoFunction near then tree.decisionsAt .exclusive else 0 := by
  induction tree using induction_children generalizing near with
  | step tree ih =>
    have hself : (Occurrence.mk tree (near ++ [top])).isDirect = hasNoFunction near := by
      rw [Occurrence.isDirect, List.dropLast_concat]
    have hbelow : ((Occurrence.children ⟨tree, near ++ [top]⟩).map fun child =>
        child.reach.countP fun place => place.isDecision && place.isDirect).sum =
        if hasNoFunction (tree :: near) then tree.decisions .exclusive else 0 := by
      rw [Occurrence.children, List.map_map]
      refine (congrArg List.sum (List.map_congr_left fun child hchild =>
        ih child hchild (tree :: near))).trans ?_
      split_ifs
      · exact (decisions_eq_sum .exclusive tree).symm
      · simp
    rw [Occurrence.countP_reach, hbelow, hself]
    -- a function is no decision itself, and nothing below it is direct
    by_cases hfunction : (Construct.of tree).isFunction
    · have hdecision : Occurrence.isDecision ⟨tree, near ++ [top]⟩ = false :=
        isDecision_of_isFunction hfunction
      rw [decisionsAt_of_skip ⟨hfunction, rfl⟩, hdecision]
      simp [hasNoFunction, hfunction]
    · have hdecision : Occurrence.isDecision ⟨tree, near ++ [top]⟩ =
          (Construct.of tree).isDecision := rfl
      have hnear : hasNoFunction (tree :: near) = hasNoFunction near := by
        simp [hasNoFunction, hfunction]
      rw [decisionsAt_of_enter (by simp [hfunction]), hnear, hdecision]
      cases hasNoFunction near <;> simp

theorem decisions_exclusive (tree : SyntaxTree) : tree.decisions .exclusive =
    tree.placesBelow.countP fun place => place.isDecision && place.isDirect := by
  rw [countP_placesBelow, decisions_eq_sum]
  exact congrArg List.sum (List.map_congr_left fun child _ =>
    (countP_direct_reach tree child []).symm)

/-- What the functions among some nodes have as decisions of their own. -/
def ownDecisions (trees : List SyntaxTree) : Nat :=
  ((trees.filter fun tree => (Construct.of tree).isFunction).map (decisions .exclusive)).sum

theorem ownDecisions_cons (tree : SyntaxTree) (rest : List SyntaxTree) :
    ownDecisions (tree :: rest) =
      (if (Construct.of tree).isFunction then tree.decisions .exclusive else 0) +
        ownDecisions rest := by
  unfold ownDecisions
  rw [List.filter_cons]
  split_ifs
  · rw [List.map_cons, List.sum_cons]
  · rw [Nat.zero_add]

theorem ownDecisions_flatMap (trees : List SyntaxTree) (f : SyntaxTree → List SyntaxTree) :
    ownDecisions (trees.flatMap f) = (trees.map fun tree => ownDecisions (f tree)).sum := by
  induction trees with
  | nil => rfl
  | cons tree rest ih =>
    rw [List.flatMap_cons, ownDecisions, List.filter_append, List.map_append, List.sum_append,
      List.map_cons, List.sum_cons, ← ih]
    rfl

theorem decisions_inclusive_of_children
    (h : ∀ child ∈ tree.children, child.decisionsAt .inclusive =
      child.decisionsAt .exclusive + ownDecisions child.preorder) :
    tree.decisions .inclusive = tree.decisions .exclusive + ownDecisions tree.descendants := by
  rw [decisions_eq_sum, List.map_congr_left h, List.sum_map_add, ← decisions_eq_sum,
    descendants_eq, ownDecisions_flatMap]

/-- A decision is one of a node's own, or of a function at the node or below it. -/
theorem decisionsAt_inclusive (tree : SyntaxTree) : tree.decisionsAt .inclusive =
    tree.decisionsAt .exclusive + ownDecisions tree.preorder := by
  induction tree using induction_children with
  | step tree ih =>
    rw [decisionsAt_of_enter (by simp), decisions_inclusive_of_children ih, preorder_eq,
      ownDecisions_cons]
    by_cases hfunction : (Construct.of tree).isFunction
    · rw [decisionsAt_of_skip ⟨hfunction, rfl⟩, isDecision_of_isFunction hfunction, if_pos hfunction,
        if_neg Bool.false_ne_true, Nat.add_zero, Nat.zero_add]
    · rw [decisionsAt_of_enter (by simp [hfunction]), if_neg hfunction, Nat.zero_add,
        Nat.add_right_comm]

theorem decisions_inclusive_eq_add (tree : SyntaxTree) : tree.decisions .inclusive =
    tree.decisions .exclusive + ownDecisions tree.descendants :=
  decisions_inclusive_of_children fun child _ => decisionsAt_inclusive child

theorem decisions_le_inclusive (scope : ComplexityScope) (tree : SyntaxTree) :
    tree.decisions scope ≤ tree.decisions .inclusive := by
  cases scope with
  | inclusive => exact Nat.le_refl _
  | exclusive => exact decisions_inclusive_eq_add tree ▸ Nat.le_add_right _ _

theorem complexity_le_inclusive (scope : ComplexityScope)
    (h : tree.decisions .inclusive < 2 ^ 32 - 1) :
    tree.complexity scope ≤ tree.complexity .inclusive := by
  have hle := decisions_le_inclusive scope tree
  rw [UInt32.le_iff_toNat_le, toNat_complexity scope (hle.trans_lt h),
    toNat_complexity .inclusive h]
  exact Nat.add_le_add_left hle 1

theorem decisions_exclusive_le_of_mem {function : SyntaxTree} (h : function ∈ tree.descendants)
    (hfunction : (Construct.of function).isFunction) :
    function.decisions .exclusive ≤ tree.decisions .inclusive := by
  have hmem : function.decisions .exclusive ∈
      (tree.descendants.filter fun tree => (Construct.of tree).isFunction).map
        (decisions .exclusive) := List.mem_map_of_mem (List.mem_filter.2 ⟨h, hfunction⟩)
  have hle : function.decisions .exclusive ≤ ownDecisions tree.descendants :=
    List.le_sum_of_mem hmem
  rw [decisions_inclusive_eq_add]
  omega

/-- The complexity of a function is one more than the decisions below it, in whatever order these are
counted. The exclusive scope leaves out the decisions of functions that stand in between, and it
charges each decision to the nearest function. -/
theorem complexity_by_scope (tree : SyntaxTree)
    (h : tree.placesBelow.countP (·.isDecision) < 2 ^ 32 - 1) :
    (∀ scope, (WellFounded fun next tally => Tally.Turn scope tally next) ∧
      Relation.ReflTransGen (Tally.Turn scope) (.start tree)
        ⟨[], countDecisions scope tree.children 0⟩ ∧
      ∀ tally, Relation.ReflTransGen (Tally.Turn scope) (.start tree) tally →
        tally.count < 2 ^ 32 - 1 ∧ ((∀ next, ¬ Tally.Turn scope tally next) →
          (tree.complexity scope).toNat = 1 + tally.count)) ∧
    (tree.complexity .inclusive).toNat = 1 + tree.placesBelow.countP (·.isDecision) ∧
    (tree.complexity .exclusive).toNat =
      1 + tree.placesBelow.countP (fun place => place.isDecision && place.isDirect) ∧
    (tree.complexity .inclusive).toNat - 1 =
      ((tree :: (tree.placesBelow.filter (·.isFunction)).map (·.tree)).map fun function =>
        (function.complexity .exclusive).toNat - 1).sum := by
  rw [← decisions_inclusive] at h
  have hscope : ∀ scope, tree.decisions scope < 2 ^ 32 - 1 := fun scope =>
    (decisions_le_inclusive scope tree).trans_lt h
  have hfunctions : (tree.placesBelow.filter (·.isFunction)).map (·.tree) =
      tree.descendants.filter fun node => (Construct.of node).isFunction := by
    rw [← map_tree_placesBelow, List.filter_map]
    rfl
  have hown : ∀ function ∈ tree.descendants.filter (fun node => (Construct.of node).isFunction),
      (function.complexity .exclusive).toNat - 1 = function.decisions .exclusive := by
    intro function hmem
    obtain ⟨hbelow, hfunction⟩ := List.mem_filter.1 hmem
    have hle := decisions_exclusive_le_of_mem hbelow hfunction
    rw [toNat_complexity .exclusive (hle.trans_lt h), Nat.add_sub_cancel_left]
  refine ⟨fun scope => ⟨Tally.wellFounded_turn, Tally.turns_countDecisions scope _ 0,
    fun tally hturns => ⟨?_, fun hend => ?_⟩⟩, ?_, ?_, ?_⟩
  · have htotal := Tally.total_eq_of_turns hturns
    have := hscope scope
    unfold Tally.total at htotal
    omega
  · rw [toNat_complexity scope (hscope scope), Tally.count_eq_of_turns hturns hend]
  · rw [toNat_complexity .inclusive h, decisions_inclusive]
  · rw [toNat_complexity .exclusive (hscope .exclusive), decisions_exclusive]
  · rw [toNat_complexity .inclusive h, decisions_inclusive_eq_add, hfunctions, List.map_cons,
      List.sum_cons, List.map_congr_left hown, toNat_complexity .exclusive (hscope .exclusive),
      ownDecisions]
    omega

namespace Sample

def leaf (kind : String) : Option String × SyntaxTree := (none, .node kind true ⟨0, 0⟩ [])

def inner : SyntaxTree :=
  .node "arrow_function" true ⟨0, 0⟩ [leaf "while_statement", leaf "ternary_expression"]

def outer : SyntaxTree :=
  .node "function_declaration" true ⟨0, 0⟩
    [leaf "if_statement",
      (none, .node "variable_declarator" true ⟨0, 0⟩ [(some "value", inner)])]

end Sample

theorem complexity_sample_outer :
    Sample.outer.placesBelow.countP (·.isDecision) < 2 ^ 32 - 1 ∧
      (Sample.outer.complexity .inclusive).toNat = 1 + 3 ∧
      (Sample.outer.complexity .exclusive).toNat = 1 + 1 ∧
      (Sample.outer.complexity .inclusive).toNat - 1 =
        ((Sample.outer.complexity .exclusive).toNat - 1) +
          ((Sample.inner.complexity .exclusive).toNat - 1) := by
  have hdecisions : Sample.outer.placesBelow.countP (·.isDecision) = 3 := by decide +kernel
  have hdirect : Sample.outer.placesBelow.countP
      (fun place => place.isDecision && place.isDirect) = 1 := by decide +kernel
  have hfunctions : (Sample.outer.placesBelow.filter (·.isFunction)).map (·.tree) =
      [Sample.inner] := by cbv
  have hbound : Sample.outer.placesBelow.countP (·.isDecision) < 2 ^ 32 - 1 := by
    rw [hdecisions]
    decide
  obtain ⟨-, hinclusive, hexclusive, hsum⟩ := complexity_by_scope Sample.outer hbound
  rw [hdecisions] at hinclusive
  rw [hdirect] at hexclusive
  rw [hfunctions] at hsum
  exact ⟨hbound, hinclusive, hexclusive, hsum⟩

end CodeGraph.SyntaxTree
