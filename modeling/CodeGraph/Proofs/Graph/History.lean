import CodeGraph.Proofs.Graph.Health

/-! Builders that have seen any operations in any order. The index of such a builder is right, its
nodes stand in the order in which their ids were first mentioned, each is the one last stored with
all changes since, and its edges are those that were added. -/
namespace CodeGraph.GraphBuilder

/-- What can be done to a builder. Nodes are changed in place by what leaves their ids alone. -/
inductive Operation where
  | upsert (node : Node)
  | addEdge (edge : Edge)
  | rollUp
  | scoreHealth (policy : HealthPolicy)
  | modify (id : String) (change : Node → Node) (keeps : ∀ node, (change node).id = node.id)

namespace Operation

/-- The ids that an operation mentions, in this order. -/
def mentions : Operation → List String
  | upsert node => [node.id]
  | addEdge edge => [edge.source, edge.target]
  | _ => []

def edge? : Operation → Option Edge
  | addEdge edge => some edge
  | _ => none

/-- What becomes of a node in place, given the graph before the operation. -/
def revise (operation : Operation) (graph : Graph) (node : Node) : Node :=
  match operation with
  | upsert _ => node
  | addEdge _ => node
  | rollUp => graph.rolledUp node
  | scoreHealth policy => graph.scored policy node
  | modify id change _ => if node.id = id then change node else node

end Operation

def apply (builder : GraphBuilder) : Operation → GraphBuilder
  | .upsert node => builder.upsert node
  | .addEdge edge => builder.addEdge edge
  | .rollUp => builder.rollUp
  | .scoreHealth policy => builder.scoreHealth policy
  | .modify id change _ => builder.modify id change

def runFrom (builder : GraphBuilder) (operations : List Operation) : GraphBuilder :=
  operations.foldl apply builder

def run (operations : List Operation) : GraphBuilder := runFrom empty operations

/-- What becomes of a node in place while operations are carried out. -/
def reviseFrom (builder : GraphBuilder) : List Operation → Node → Node
  | [], node => node
  | operation :: rest, node =>
    reviseFrom (builder.apply operation) rest (operation.revise builder.build node)

/-- How a node came to be what it is. -/
inductive Origin (operations : List Operation) (node : Node) : Prop where
  /-- It was stored, no other was stored under its id since, and it was changed in place. -/
  | stored (before after : List Operation) (first : Node)
      (split : operations = before ++ .upsert first :: after)
      (same : first.id = node.id)
      (last : ∀ later, .upsert later ∈ after → later.id ≠ node.id)
      (revised : node = reviseFrom (run (before ++ [.upsert first])) after first)
  /-- Nothing was stored under its id, an edge was the first to mention it, and the package that
  took its place was changed in place. -/
  | mentioned (before after : List Operation) (edge : Edge)
      (split : operations = before ++ .addEdge edge :: after)
      (isEnd : node.id = edge.source ∨ node.id = edge.target)
      (new : node.id ∉ before.flatMap (·.mentions))
      (never : ∀ stored, .upsert stored ∈ operations → stored.id ≠ node.id)
      (revised : node = reviseFrom (run (before ++ [.addEdge edge])) after (.package node.id))

variable {builder : GraphBuilder} {operations : List Operation} {operation : Operation}
  {node : Node}

theorem run_concat (operations : List Operation) (operation : Operation) :
    run (operations ++ [operation]) = (run operations).apply operation := by
  simp [run, runFrom]

theorem run_append (before after : List Operation) :
    run (before ++ after) = runFrom (run before) after := by
  simp [run, runFrom]

theorem reviseFrom_concat (builder : GraphBuilder) (operations : List Operation)
    (operation : Operation) (node : Node) :
    reviseFrom builder (operations ++ [operation]) node =
      operation.revise (runFrom builder operations).build (reviseFrom builder operations node) := by
  induction operations generalizing builder node with
  | nil => rfl
  | cons first rest ih =>
    rw [List.cons_append, reviseFrom, ih]
    rfl

theorem Operation.id_revise (graph : Graph) (node : Node) (operation : Operation) :
    (operation.revise graph node).id = node.id := by
  cases operation with
  | upsert stored => rfl
  | addEdge edge => rfl
  | rollUp => exact graph.id_rolledUp node
  | scoreHealth policy => exact graph.id_scored policy node
  | modify id change keeps =>
    simp only [revise]
    split_ifs
    · exact keeps node
    · rfl

theorem Consistent.apply (h : builder.Consistent) (operation : Operation) :
    (builder.apply operation).Consistent := by
  cases operation with
  | upsert node => exact h.upsert node
  | addEdge edge => exact h.addEdge edge
  | rollUp => exact h.rollUp
  | scoreHealth policy => exact h.scoreHealth policy
  | modify id change keeps => exact h.modify id change keeps

theorem consistent_run (operations : List Operation) : (run operations).Consistent := by
  induction operations using List.reverseRecOn with
  | nil => exact consistent_empty
  | append_singleton operations operation ih =>
    rw [run_concat]
    exact ih.apply operation

/-- An operation that neither stores a node nor adds an edge changes all nodes in place. -/
theorem Consistent.build_apply (h : builder.Consistent) (operation : Operation) :
    (builder.apply operation).build =
      match operation with
      | .upsert node => builder.build.put node
      | .addEdge edge => builder.build.connect edge
      | operation => builder.build.mapNodes (operation.revise builder.build) := by
  cases operation with
  | upsert node => exact h.build_upsert node
  | addEdge edge => exact h.build_addEdge edge
  | rollUp => exact h.build_rollUp
  | scoreHealth policy => exact h.build_scoreHealth policy
  | modify id change keeps => exact h.build_modify id change keeps

theorem ids_run (operations : List Operation) :
    (run operations).build.ids = (operations.flatMap (·.mentions)).eraseDups := by
  induction operations using List.reverseRecOn with
  | nil => rfl
  | append_singleton operations operation ih =>
    rw [run_concat, (consistent_run operations).build_apply, List.flatMap_append]
    have hsame : ((run operations).build.mapNodes (operation.revise (run operations).build)).ids =
        (operations.flatMap (·.mentions)).eraseDups := by
      rw [Graph.ids_mapNodes (operation.id_revise _), ih]
    cases operation with
    | upsert node => exact Graph.ids_put_of_eq ih
    | addEdge edge => exact Graph.ids_connect_of_eq ih
    | rollUp => simpa [Operation.mentions] using hsame
    | scoreHealth policy => simpa [Operation.mentions] using hsame
    | modify id change keeps => simpa [Operation.mentions] using hsame

theorem mem_ids_run {id : String} :
    id ∈ (run operations).build.ids ↔ ∃ operation ∈ operations, id ∈ operation.mentions := by
  rw [ids_run, List.mem_eraseDups, List.mem_flatMap]

theorem edges_run (operations : List Operation) :
    (run operations).build.edges = operations.filterMap (·.edge?) := by
  induction operations using List.reverseRecOn with
  | nil => rfl
  | append_singleton operations operation ih =>
    rw [run_concat, (consistent_run operations).build_apply, List.filterMap_append, ← ih]
    cases operation with
    | upsert node => simp [Operation.edge?]
    | addEdge edge => simp [Operation.edge?]
    | rollUp => simp [Operation.edge?]
    | scoreHealth policy => simp [Operation.edge?]
    | modify id change keeps => simp [Operation.edge?]

theorem ends_mem_ids_run {edge : Edge} (h : edge ∈ (run operations).build.edges) :
    edge.source ∈ (run operations).build.ids ∧ edge.target ∈ (run operations).build.ids := by
  rw [edges_run, List.mem_filterMap] at h
  obtain ⟨operation, hmem, hedge⟩ := h
  have hends : edge.source ∈ operation.mentions ∧ edge.target ∈ operation.mentions := by
    cases operation with
    | addEdge added =>
      obtain rfl : added = edge := Option.some.inj hedge
      simp [Operation.mentions]
    | _ => cases hedge
  exact ⟨mem_ids_run.2 ⟨operation, hmem, hends.1⟩, mem_ids_run.2 ⟨operation, hmem, hends.2⟩⟩

/-- An operation that does not store a node anew changes it in place. -/
theorem Origin.concat (h : Origin operations node)
    (hother : ∀ stored, operation = .upsert stored → stored.id ≠ node.id) :
    Origin (operations ++ [operation]) (operation.revise (run operations).build node) := by
  have hid := operation.id_revise (run operations).build node
  cases h with
  | stored before after first split same last revised =>
    refine .stored before (after ++ [operation]) first (by simp [split]) (same.trans hid.symm) ?_ ?_
    · intro later hlater
      rw [hid]
      rcases List.mem_append.1 hlater with hlater | hlater
      · exact last later hlater
      · exact hother later (List.mem_singleton.1 hlater).symm
    · rw [reviseFrom_concat, ← run_append, ← revised, split]
      simp
  | mentioned before after edge split isEnd new never revised =>
    refine .mentioned before (after ++ [operation]) edge (by simp [split]) (hid ▸ isEnd)
      (hid ▸ new) ?_ ?_
    · intro stored hstored
      rw [hid]
      rcases List.mem_append.1 hstored with hstored | hstored
      · exact never stored hstored
      · exact hother stored (List.mem_singleton.1 hstored).symm
    · rw [reviseFrom_concat, ← run_append, hid, ← revised, split]
      simp

private theorem origin_of_package {edge : Edge}
    (hend : node.id = edge.source ∨ node.id = edge.target)
    (hnew : node.id ∉ (run operations).build.ids) (hnode : node = .package node.id) :
    Origin (operations ++ [.addEdge edge]) node := by
  rw [ids_run, List.mem_eraseDups] at hnew
  refine .mentioned operations [] edge rfl hend hnew ?_ hnode
  intro stored hstored hid
  rcases List.mem_append.1 hstored with hstored | hstored
  · exact hnew (List.mem_flatMap.2 ⟨_, hstored, by simp [Operation.mentions, hid]⟩)
  · cases List.mem_singleton.1 hstored

theorem origin_of_mem {operations : List Operation} {node : Node}
    (h : node ∈ (run operations).build.nodes) : Origin operations node := by
  induction operations using List.reverseRecOn generalizing node with
  | nil => cases h
  | append_singleton operations operation ih =>
    rw [run_concat, (consistent_run operations).build_apply] at h
    have hinPlace : ∀ old ∈ (run operations).build.nodes,
        (∀ stored, operation = .upsert stored → stored.id ≠ old.id) →
          Origin (operations ++ [operation]) (operation.revise (run operations).build old) :=
      fun old hold hother => (ih hold).concat hother
    cases operation with
    | upsert stored =>
      rcases Graph.mem_put.1 h with rfl | ⟨hold, hne⟩
      · exact .stored operations [] node rfl rfl (by simp) rfl
      · refine hinPlace node hold ?_
        rintro other ⟨⟩
        exact Ne.symm hne
    | addEdge edge =>
      rcases Graph.mem_connect.1 h with hold | ⟨hpackage, hnew, hend⟩
      · exact hinPlace node hold (by simp)
      · exact origin_of_package hend hnew hpackage
    | rollUp =>
      obtain ⟨old, hold, rfl⟩ := List.mem_map.1 h
      exact hinPlace old hold (by simp)
    | scoreHealth policy =>
      obtain ⟨old, hold, rfl⟩ := List.mem_map.1 h
      exact hinPlace old hold (by simp)
    | modify id change keeps =>
      obtain ⟨old, hold, rfl⟩ := List.mem_map.1 h
      exact hinPlace old hold (by simp)

/-- After any operations an id is known if and only if exactly one node carries it, and its place is
the place of that node. The finished graph has the ids in the order of their first mention, each
node as it was stored last or first mentioned with what was changed since, and all edges that were
added. -/
theorem run_history (operations : List Operation) :
    let builder := run operations
    (∀ id : String, builder.contains id ↔
      ∃! place : Nat, (builder.nodes[place]?).map (·.id) = some id) ∧
    (∀ (id : String) (place : Nat), builder.place? id = some place ↔
      (builder.nodes[place]?).map (·.id) = some id) ∧
    builder.build.ids = (operations.flatMap (·.mentions)).eraseDups ∧
    builder.build.ids.Nodup ∧
    (∀ node ∈ builder.build.nodes, Origin operations node) ∧
    builder.build.edges = operations.filterMap (·.edge?) ∧
    ∀ edge ∈ builder.build.edges,
      edge.source ∈ builder.build.ids ∧ edge.target ∈ builder.build.ids := by
  intro builder
  have h : builder.Consistent := consistent_run operations
  have hplace : ∀ (id : String) (place : Nat), builder.place? id = some place ↔
      (builder.nodes[place]?).map (·.id) = some id := by
    intro id place
    rw [← getElem?_ids]
    exact h.index_iff id place
  refine ⟨?_, hplace, ids_run operations, h.nodup_ids, fun node => origin_of_mem,
    edges_run operations, fun edge => ends_mem_ids_run⟩
  intro id
  unfold contains
  rw [Std.HashMap.contains_eq_isSome_getElem?, Option.isSome_iff_exists]
  constructor
  · rintro ⟨place, hsome⟩
    refine ⟨place, (hplace id place).1 hsome, fun other hother => ?_⟩
    have hsame := (hplace id other).2 hother
    exact Option.some.inj (hsame.symm.trans hsome)
  · rintro ⟨place, hcarries, -⟩
    exact ⟨place, (hplace id place).2 hcarries⟩

end CodeGraph.GraphBuilder
