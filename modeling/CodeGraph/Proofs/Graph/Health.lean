import CodeGraph.Graph.Health
import CodeGraph.Proofs.Graph.View

/-! Rolling up complexity and scoring health, seen as changes of all nodes of a graph at once: the
complexity of a file grows by what its functions have together, and its health is the score of its
complexity, its imports and its lines. -/
namespace CodeGraph

def boundedComplexity (n : Nat) : UInt32 := UInt32.ofNat (min n (UInt32.size - 1))

theorem toNat_boundedComplexity (n : Nat) :
    (boundedComplexity n).toNat = min n (UInt32.size - 1) := by
  have hlt : min n (UInt32.size - 1) < 2 ^ 32 := by
    change min n (4294967296 - 1) < 4294967296
    omega
  exact UInt32.toNat_ofNat_of_lt' hlt

theorem toNat_addComplexity (a b : UInt32) :
    (addComplexity a b).toNat = min (a.toNat + b.toNat) (UInt32.size - 1) := by
  unfold addComplexity
  split_ifs with h
  · rw [UInt32.toNat_add, Nat.mod_eq_of_lt h]
    omega
  · have hlt : UInt32.size - 1 < UInt32.size := by decide
    rw [UInt32.toNat_ofNat_of_lt' hlt]
    omega

/-- Adding complexities one by one bounds their sum once, in whatever order they come. -/
theorem foldl_addComplexity (complexities : List UInt32) (start : UInt32) :
    complexities.foldl addComplexity start =
      boundedComplexity (start.toNat + (complexities.map (·.toNat)).sum) := by
  apply UInt32.toNat_inj.1
  rw [toNat_boundedComplexity]
  induction complexities generalizing start with
  | nil =>
    have hlt : start.toNat < UInt32.size := start.toNat_lt_size
    simp only [List.foldl_nil, List.map_nil, List.sum_nil]
    omega
  | cons complexity rest ih =>
    rw [List.foldl_cons, ih, toNat_addComplexity, List.map_cons, List.sum_cons]
    omega

namespace Graph

def ownedComplexity (graph : Graph) (path : String) : Nat :=
  ((graph.nodes.filter fun node => node.kind = .function ∧ node.owner = path).map
    (·.complexity.toNat)).sum

def outDegree (graph : Graph) (id : String) (relation : Relation) : Nat :=
  graph.edges.countP fun edge => edge.source = id ∧ edge.relation = relation

/-- A file with the complexity of its functions added. Other nodes are left alone. -/
def rolledUp (graph : Graph) (node : Node) : Node :=
  if node.kind = .file then
    { node with
      complexity := boundedComplexity (node.complexity.toNat + graph.ownedComplexity node.id) }
  else node

/-- A file with its health. Other nodes are left alone. -/
def scored (graph : Graph) (policy : HealthPolicy) (node : Node) : Node :=
  if node.kind = .file then
    { node with
      health? := some <|
        policy.score node.complexity (graph.outDegree node.id .imports) node.lines }
  else node

@[simp] theorem id_rolledUp (graph : Graph) (node : Node) : (graph.rolledUp node).id = node.id := by
  unfold rolledUp
  split_ifs <;> rfl

@[simp] theorem kind_rolledUp (graph : Graph) (node : Node) :
    (graph.rolledUp node).kind = node.kind := by
  unfold rolledUp
  split_ifs <;> rfl

@[simp] theorem owner_rolledUp (graph : Graph) (node : Node) :
    (graph.rolledUp node).owner = node.owner := by
  unfold rolledUp
  split_ifs <;> rfl

@[simp] theorem id_scored (graph : Graph) (policy : HealthPolicy) (node : Node) :
    (graph.scored policy node).id = node.id := by
  unfold scored
  split_ifs <;> rfl

@[simp] theorem kind_scored (graph : Graph) (policy : HealthPolicy) (node : Node) :
    (graph.scored policy node).kind = node.kind := by
  unfold scored
  split_ifs <;> rfl

@[simp] theorem owner_scored (graph : Graph) (policy : HealthPolicy) (node : Node) :
    (graph.scored policy node).owner = node.owner := by
  unfold scored
  split_ifs <;> rfl

/-- A graph with its nodes and its edges in another order. -/
structure Reordered (graph other : Graph) : Prop where
  nodes : graph.nodes.Perm other.nodes
  edges : graph.edges.Perm other.edges

namespace Reordered

variable {graph other : Graph}

theorem ownedComplexity_eq (h : Reordered graph other) (path : String) :
    graph.ownedComplexity path = other.ownedComplexity path :=
  ((h.nodes.filter _).map _).sum_eq

theorem outDegree_eq (h : Reordered graph other) (id : String) (relation : Relation) :
    graph.outDegree id relation = other.outDegree id relation :=
  h.edges.countP_eq _

theorem rolledUp_eq (h : Reordered graph other) : graph.rolledUp = other.rolledUp := by
  funext node
  unfold rolledUp
  rw [h.ownedComplexity_eq]

theorem scored_eq (h : Reordered graph other) (policy : HealthPolicy) :
    graph.scored policy = other.scored policy := by
  funext node
  unfold scored
  rw [h.outDegree_eq]

/-- Nodes that are changed alike stay the same up to their order. -/
theorem mapNodes (h : Reordered graph other) (change : Node → Node) :
    Reordered (graph.mapNodes change) (other.mapNodes change) :=
  ⟨h.nodes.map change, h.edges⟩

end Reordered

end Graph

namespace GraphBuilder

variable {builder : GraphBuilder}

private theorem build_contribute (h : builder.Consistent) (owner : String) (complexity : UInt32) :
    (builder.contribute owner complexity).build = builder.build.mapNodes fun node =>
      if node.id = owner ∧ node.kind = .file then
        { node with complexity := addComplexity node.complexity complexity }
      else node := by
  unfold contribute
  cases hnode : builder.node? owner with
  | none =>
    refine (Graph.mapNodes_eq_self ?_).symm
    intro node hmem
    rw [if_neg]
    rintro ⟨heq, -⟩
    have hsome := h.node?_eq_some_iff.2 ⟨hmem, heq⟩
    rw [hnode] at hsome
    cases hsome
  | some found =>
    obtain ⟨hfound, hid⟩ := h.node?_eq_some_iff.1 hnode
    -- whether the owner is a file can be asked of any node with its id, as there is only one
    have hunique : ∀ node ∈ builder.build.nodes, node.id = owner → node = found :=
      fun node hmem heq => Graph.eq_of_id_eq h.nodup_ids hmem hfound (heq.trans hid.symm)
    by_cases hkind : found.kind = .file
    · simp only [if_pos hkind]
      rw [h.build_modify owner _ fun _ => by rfl]
      refine Graph.mapNodes_congr ?_
      intro node hmem
      by_cases heq : node.id = owner
      · have hfile : node.kind = .file := hunique node hmem heq ▸ hkind
        rw [if_pos heq, if_pos ⟨heq, hfile⟩]
      · rw [if_neg heq, if_neg (not_and_of_not_left _ heq)]
    · simp only [if_neg hkind]
      refine (Graph.mapNodes_eq_self ?_).symm
      intro node hmem
      rw [if_neg]
      rintro ⟨heq, hfile⟩
      exact hkind (hunique node hmem heq ▸ hfile)

theorem Consistent.contribute (h : builder.Consistent) (owner : String) (complexity : UInt32) :
    (builder.contribute owner complexity).Consistent := by
  unfold GraphBuilder.contribute
  split
  · split
    · exact h.modify owner _ fun _ => by rfl
    · exact h
  · exact h

/-- What a list of functions adds to a file. -/
private def absorb (functions : List Node) (node : Node) : Node :=
  if node.kind = .file then
    { node with
      complexity := ((functions.filter (·.owner = node.id)).map (·.complexity)).foldl addComplexity
        node.complexity }
  else node

private theorem foldl_contribute (h : builder.Consistent) (functions : List Node) :
    let result := functions.foldl
      (fun builder node => builder.contribute node.owner node.complexity) builder
    result.Consistent ∧ result.build = builder.build.mapNodes (absorb functions) := by
  induction functions generalizing builder with
  | nil =>
    refine ⟨h, (Graph.mapNodes_eq_self fun node _ => ?_).symm⟩
    unfold absorb
    split_ifs <;> rfl
  | cons function rest ih =>
    obtain ⟨hconsistent, hbuild⟩ := ih (h.contribute function.owner function.complexity)
    refine ⟨hconsistent, ?_⟩
    rw [List.foldl_cons, hbuild, build_contribute h, Graph.mapNodes_mapNodes]
    congr 1
    funext node
    unfold absorb
    by_cases hkind : node.kind = .file
    · by_cases howner : node.id = function.owner
      · simp [hkind, howner]
      · simp [hkind, howner, Ne.symm howner]
    · simp [hkind]

/-- The functions may contribute in any order. -/
theorem Consistent.build_foldl_contribute (h : builder.Consistent) {functions : List Node}
    (hfunctions : functions.Perm (builder.build.nodesOfKind .function)) :
    (functions.foldl (fun builder node => builder.contribute node.owner node.complexity)
      builder).build = builder.build.mapNodes builder.build.rolledUp := by
  refine (foldl_contribute h functions).2.trans ?_
  congr 1
  funext node
  have howned : ((functions.filter (·.owner = node.id)).map (·.complexity.toNat)).sum =
      builder.build.ownedComplexity node.id := by
    rw [((hfunctions.filter (·.owner = node.id)).map (·.complexity.toNat)).sum_eq,
      Graph.nodesOfKind, List.filter_filter, Graph.ownedComplexity]
    simp only [Bool.decide_and, Bool.and_comm]
  unfold absorb Graph.rolledUp
  split_ifs with hkind
  · rw [foldl_addComplexity, List.map_map, ← howned]
    rfl
  · rfl

theorem Consistent.build_rollUp (h : builder.Consistent) :
    builder.rollUp.build = builder.build.mapNodes builder.build.rolledUp :=
  h.build_foldl_contribute (.refl _)

theorem Consistent.rollUp (h : builder.Consistent) : builder.rollUp.Consistent :=
  (foldl_contribute h _).1

theorem Consistent.outDegree_eq (h : builder.Consistent) (id : String) (relation : Relation) :
    builder.outDegree id relation = builder.build.outDegree id relation := by
  unfold outDegree place? Graph.outDegree
  change _ = (builder.edges.toList.filterMap builder.edgeAt?).countP _
  rw [List.countP_filterMap]
  cases hplace : builder.index[id]? with
  | none =>
    have hnone := h.index_eq_none_iff.1 hplace
    symm
    rw [List.countP_eq_zero]
    intro edge hedge
    obtain ⟨hsource, htarget⟩ := h.edge_lt edge (Array.mem_toList_iff.1 hedge)
    have hne : builder.build.ids[edge.1] ≠ id := fun heq => hnone (heq ▸ List.getElem_mem hsource)
    simp [edgeAt?_eq, List.getElem?_eq_getElem hsource, List.getElem?_eq_getElem htarget, hne]
  | some place =>
    have hid := (h.index_iff id place).1 hplace
    simp only [← Array.countP_toList]
    apply List.countP_congr
    intro edge hedge
    obtain ⟨hsource, htarget⟩ := h.edge_lt edge (Array.mem_toList_iff.1 hedge)
    have hiff : builder.build.ids[edge.1] = id ↔ edge.1 = place := by
      constructor
      · intro heq
        have hsome : builder.build.ids[edge.1]? = some id := by
          rw [List.getElem?_eq_getElem hsource, heq]
        have hindex := (h.index_iff id edge.1).2 hsome
        exact Option.some.inj (hindex.symm.trans hplace)
      · rintro rfl
        rw [List.getElem?_eq_getElem hsource] at hid
        exact Option.some.inj hid
    simp [edgeAt?_eq, List.getElem?_eq_getElem hsource, List.getElem?_eq_getElem htarget, hiff]

private def assess (health : Node → UInt8) (files : List Node) (node : Node) : Node :=
  match files.find? (·.id = node.id) with
  | some file => { node with health? := some (health file) }
  | none => node

private theorem foldl_score (h : builder.Consistent) (health : Node → UInt8) (files : List Node)
    (hfiles : (files.map (·.id)).Nodup) :
    let result := files.foldl (fun builder file =>
      builder.modify file.id fun node => { node with health? := some (health file) }) builder
    result.Consistent ∧ result.build = builder.build.mapNodes (assess health files) := by
  induction files generalizing builder with
  | nil => exact ⟨h, (Graph.mapNodes_eq_self fun _ _ => rfl).symm⟩
  | cons file rest ih =>
    obtain ⟨hnew, hrest⟩ := List.nodup_cons.1 (List.map_cons ▸ hfiles)
    let score (node : Node) : Node := { node with health? := some (health file) }
    obtain ⟨hconsistent, hbuild⟩ := ih (h.modify file.id score fun _ => rfl) hrest
    refine ⟨hconsistent, ?_⟩
    rw [List.foldl_cons, hbuild, h.build_modify file.id score fun _ => rfl, Graph.mapNodes_mapNodes]
    congr 1
    funext node
    by_cases hid : node.id = file.id
    · have hnone : rest.find? (·.id = file.id) = none := by
        rw [List.find?_eq_none]
        intro other hother
        have hid : other.id ∈ rest.map (·.id) := List.mem_map_of_mem hother
        simpa using fun heq : other.id = file.id => hnew (heq ▸ hid)
      simp [assess, score, hid, hnone]
    · simp [assess, hid, Ne.symm hid]

private theorem scoreHealth_spec (h : builder.Consistent) (policy : HealthPolicy) :
    let files := builder.nodes.toList.filter (·.kind = .file)
    (builder.scoreHealth policy).Consistent ∧ (builder.scoreHealth policy).build =
      builder.build.mapNodes (assess (builder.healthOf policy) files) := by
  have hsublist : ((builder.nodes.toList.filter (·.kind = .file)).map (·.id)).Sublist
      builder.build.ids := List.filter_sublist.map _
  have hspec := foldl_score h (builder.healthOf policy) _ (hsublist.nodup h.nodup_ids)
  simpa only [scoreHealth, List.foldl_map] using hspec

theorem Consistent.scoreHealth (h : builder.Consistent) (policy : HealthPolicy) :
    (builder.scoreHealth policy).Consistent :=
  (scoreHealth_spec h policy).1

theorem Consistent.build_scoreHealth (h : builder.Consistent) (policy : HealthPolicy) :
    (builder.scoreHealth policy).build = builder.build.mapNodes (builder.build.scored policy) := by
  refine (scoreHealth_spec h policy).2.trans (Graph.mapNodes_congr ?_)
  intro node hnode
  unfold assess Graph.scored
  have hunique : ∀ file ∈ builder.build.nodes, file.id = node.id → file = node :=
    fun file hfile heq => Graph.eq_of_id_eq h.nodup_ids hfile hnode heq
  cases hfind : (builder.nodes.toList.filter (·.kind = .file)).find? (·.id = node.id) with
  | none =>
    rw [List.find?_eq_none] at hfind
    have hkind : node.kind ≠ .file := by
      intro hkind
      exact hfind node (List.mem_filter.2 ⟨hnode, by simpa using hkind⟩) (by simp)
    rw [if_neg hkind]
  | some file =>
    obtain ⟨hfile, hkind⟩ := List.mem_filter.1 (List.mem_of_find?_eq_some hfind)
    have hid : file.id = node.id := by simpa using List.find?_some hfind
    obtain rfl := hunique file hfile hid
    rw [if_pos (by simpa using hkind)]
    simp only [healthOf, h.outDegree_eq]

end GraphBuilder

end CodeGraph
