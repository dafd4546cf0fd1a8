import CodeGraph.Proofs.Graph.History

/-! Rolling up complexity and scoring health of any builder. Both change one number of each file and
leave everything else of the builder as it is, whatever nodes, owners and edges it has, and neither
depends on an order. -/
namespace CodeGraph.GraphBuilder

variable {builder other : GraphBuilder} {functions : List Node}

/-- Whether two builders have the same index and the same edges between places. -/
structure SameFrame (builder other : GraphBuilder) : Prop where
  index : other.index = builder.index
  edges : other.edges = builder.edges

namespace SameFrame

theorem refl (builder : GraphBuilder) : builder.SameFrame builder := ⟨rfl, rfl⟩

theorem trans {third : GraphBuilder} (h : builder.SameFrame other) (hother : other.SameFrame third) :
    builder.SameFrame third :=
  ⟨hother.index.trans h.index, hother.edges.trans h.edges⟩

/-- Steps that keep the frame keep it together. -/
theorem foldl {α : Type} {step : GraphBuilder → α → GraphBuilder}
    (hstep : ∀ builder item, SameFrame builder (step builder item)) (items : List α)
    (builder : GraphBuilder) : builder.SameFrame (items.foldl step builder) := by
  induction items generalizing builder with
  | nil => exact refl builder
  | cons item rest ih => exact (hstep builder item).trans (ih (step builder item))

theorem modify (builder : GraphBuilder) (id : String) (change : Node → Node) :
    builder.SameFrame (builder.modify id change) :=
  ⟨index_modify builder id change, edges_modify builder id change⟩

theorem contribute (builder : GraphBuilder) (owner : String) (complexity : UInt32) :
    builder.SameFrame (builder.contribute owner complexity) := by
  unfold GraphBuilder.contribute
  split
  · split
    · exact modify builder owner _
    · exact refl builder
  · exact refl builder

theorem foldl_contribute (functions : List Node) (builder : GraphBuilder) :
    builder.SameFrame
      (functions.foldl (fun builder node => builder.contribute node.owner node.complexity) builder) :=
  foldl (fun builder node => contribute builder node.owner node.complexity) functions builder

theorem scoreHealth (builder : GraphBuilder) (policy : HealthPolicy) :
    builder.SameFrame (builder.scoreHealth policy) := by
  apply foldl
  rintro builder ⟨id, health⟩
  exact modify builder id _

/-- Within a frame a builder is known by its nodes. -/
theorem eq_of_build (h : builder.SameFrame other) {change : Node → Node}
    (hbuild : other.build = builder.build.mapNodes change) :
    other = { builder with nodes := builder.nodes.map change } := by
  obtain ⟨nodes, index, edges⟩ := other
  obtain ⟨rfl, rfl⟩ := h
  have hnodes : nodes = builder.nodes.map change := by
    apply Array.toList_inj.1
    rw [Array.toList_map]
    exact congrArg Graph.nodes hbuild
  rw [hnodes]

end SameFrame

theorem Consistent.foldl_contribute_eq (h : builder.Consistent)
    (hfunctions : functions.Perm (builder.build.nodesOfKind .function)) :
    functions.foldl (fun builder node => builder.contribute node.owner node.complexity) builder =
      { builder with nodes := builder.nodes.map builder.build.rolledUp } :=
  (SameFrame.foldl_contribute functions builder).eq_of_build (h.build_foldl_contribute hfunctions)

theorem Consistent.rollUp_eq (h : builder.Consistent) :
    builder.rollUp = { builder with nodes := builder.nodes.map builder.build.rolledUp } :=
  h.foldl_contribute_eq (.refl _)

theorem Consistent.scoreHealth_eq (h : builder.Consistent) (policy : HealthPolicy) :
    builder.scoreHealth policy =
      { builder with nodes := builder.nodes.map (builder.build.scored policy) } :=
  (SameFrame.scoreHealth builder policy).eq_of_build (h.build_scoreHealth policy)

theorem toNat_complexity_rolledUp (graph : Graph) {node : Node} (h : node.kind = .file) :
    (graph.rolledUp node).complexity.toNat =
      min (node.complexity.toNat + graph.ownedComplexity node.id) (2 ^ 32 - 1) := by
  rw [Graph.rolledUp, if_pos h, toNat_boundedComplexity]
  rfl

/-- After any operations, rolling up adds to the complexity of each file what all functions have
that name it as their owner, up to the greatest complexity there is, and scoring gives each file the
score of its complexity, of the imports that leave it and of its lines. Nothing else of the builder
changes. It does not matter in which order functions contribute or nodes and edges stand. -/
theorem run_rollUp_scoreHealth (operations : List Operation) (policy : HealthPolicy) :
    let builder := run operations
    let graph := builder.build
    (builder.rollUp = { builder with nodes := builder.nodes.map graph.rolledUp } ∧
      (∀ node, node.kind = .file → (graph.rolledUp node).complexity.toNat =
        min (node.complexity.toNat + graph.ownedComplexity node.id) (2 ^ 32 - 1)) ∧
      ∀ functions : List Node, functions.Perm (graph.nodesOfKind .function) →
        functions.foldl (fun builder node => builder.contribute node.owner node.complexity) builder =
          builder.rollUp) ∧
    builder.scoreHealth policy = { builder with nodes := builder.nodes.map (graph.scored policy) } ∧
    ∀ others, graph.Reordered (run others).build →
      builder.rollUp.build.Reordered (run others).rollUp.build ∧
      (builder.scoreHealth policy).build.Reordered ((run others).scoreHealth policy).build := by
  intro builder graph
  have h : builder.Consistent := consistent_run operations
  refine ⟨⟨h.rollUp_eq, fun node => toNat_complexity_rolledUp graph, fun functions hfunctions => ?_⟩,
    h.scoreHealth_eq policy, fun others hothers => ?_⟩
  · rw [h.foldl_contribute_eq hfunctions, h.rollUp_eq]
  · have hrun := consistent_run others
    rw [h.build_rollUp, hrun.build_rollUp, h.build_scoreHealth, hrun.build_scoreHealth,
      ← hothers.rolledUp_eq, ← hothers.scored_eq]
    exact ⟨hothers.mapNodes _, hothers.mapNodes _⟩

end CodeGraph.GraphBuilder
