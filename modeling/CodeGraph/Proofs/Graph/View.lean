import CodeGraph.Graph.Builder
import CodeGraph.Proofs.Graph.Update

/-! A builder seen as the graph that it would finish with. Each operation of a builder whose index
is right updates that graph, and the index stays right. -/
namespace CodeGraph.GraphBuilder

/-- The index holds the place of each id, and edges join places that are taken. -/
structure Consistent (builder : GraphBuilder) : Prop where
  index_iff : ∀ (id : String) (place : Nat),
    builder.index[id]? = some place ↔ builder.build.ids[place]? = some id
  edge_lt : ∀ edge ∈ builder.edges,
    edge.1 < builder.build.ids.length ∧ edge.2.1 < builder.build.ids.length

variable {builder other : GraphBuilder} {node : Node} {edge : Edge} {id : String} {place : Nat}

theorem nodes_build (builder : GraphBuilder) : builder.build.nodes = builder.nodes.toList := rfl

theorem edges_build (builder : GraphBuilder) :
    builder.build.edges = builder.edges.toList.filterMap builder.edgeAt? := rfl

theorem getElem?_ids (builder : GraphBuilder) (place : Nat) :
    builder.build.ids[place]? = (builder.nodes[place]?).map (·.id) := by
  simp [build, Graph.ids]

theorem length_ids (builder : GraphBuilder) : builder.build.ids.length = builder.nodes.size := by
  simp [build, Graph.ids]

/-- An edge depends on the ids of the nodes only. -/
theorem edgeAt?_eq (builder : GraphBuilder) (edge : Nat × Nat × Relation) :
    builder.edgeAt? edge =
      (builder.build.ids[edge.1]?).bind fun source =>
        (builder.build.ids[edge.2.1]?).map fun target => ⟨source, target, edge.2.2⟩ := by
  rw [getElem?_ids, getElem?_ids]
  unfold edgeAt?
  cases builder.nodes[edge.1]? with
  | none => rfl
  | some source => cases builder.nodes[edge.2.1]? <;> rfl

theorem consistent_empty : empty.Consistent := by
  constructor
  · intro id place
    simp [empty, build, Graph.ids]
  · intro edge hedge
    simp [empty] at hedge

theorem Consistent.nodup_ids (h : builder.Consistent) : builder.build.ids.Nodup := by
  rw [List.nodup_iff_getElem?_ne_getElem?]
  intro first second hlt hlength heq
  obtain ⟨id, hid⟩ : ∃ id, builder.build.ids[second]? = some id :=
    ⟨_, List.getElem?_eq_getElem hlength⟩
  have hsecond := (h.index_iff id second).2 hid
  have hfirst := (h.index_iff id first).2 (heq.trans hid)
  have : first = second := Option.some.inj (hfirst.symm.trans hsecond)
  omega

theorem Consistent.contains_iff (h : builder.Consistent) :
    builder.index.contains id = true ↔ id ∈ builder.build.ids := by
  rw [Std.HashMap.contains_eq_isSome_getElem?, Option.isSome_iff_exists, List.mem_iff_getElem?]
  exact exists_congr (h.index_iff id)

theorem Consistent.index_eq_none_iff (h : builder.Consistent) :
    builder.index[id]? = none ↔ id ∉ builder.build.ids := by
  rw [← h.contains_iff, Std.HashMap.contains_eq_isSome_getElem?]
  simp

/-- Edges stay what they are as long as ids are only added behind the others. -/
theorem Consistent.edges_build (h : builder.Consistent) (hedges : other.edges = builder.edges)
    (hids : builder.build.ids <+: other.build.ids) : other.build.edges = builder.build.edges := by
  rw [GraphBuilder.edges_build, GraphBuilder.edges_build, hedges]
  apply List.filterMap_congr
  intro edge hedge
  obtain ⟨hsource, htarget⟩ := h.edge_lt edge (by simpa using hedge)
  rw [List.prefix_iff_getElem?] at hids
  rw [edgeAt?_eq, edgeAt?_eq, hids _ hsource, hids _ htarget,
    List.getElem?_eq_getElem hsource, List.getElem?_eq_getElem htarget]

theorem Consistent.edge_lt_of_prefix (h : builder.Consistent) (hedges : other.edges = builder.edges)
    (hids : builder.build.ids <+: other.build.ids) :
    ∀ edge ∈ other.edges, edge.1 < other.build.ids.length ∧ edge.2.1 < other.build.ids.length := by
  intro edge hedge
  have hlength := hids.length_le
  have hlt := h.edge_lt edge (hedges ▸ hedge)
  omega

/-- The place of an id is the place of the one node that carries it. -/
theorem Consistent.id_eq_iff (h : builder.Consistent) (hplace : builder.index[id]? = some place)
    {position : Nat} (hnode : builder.nodes[position]? = some node) :
    node.id = id ↔ place = position := by
  constructor
  · intro hid
    have hposition : builder.index[id]? = some position := by
      rw [h.index_iff, getElem?_ids, hnode, ← hid]
      rfl
    exact Option.some.inj (hplace.symm.trans hposition)
  · rintro rfl
    have hid := (h.index_iff id place).1 hplace
    rw [getElem?_ids, hnode] at hid
    exact Option.some.inj hid

private theorem nodes_upsert_of_some (h : builder.Consistent)
    (hplace : builder.index[node.id]? = some place) :
    (builder.upsert node).build.nodes = (builder.build.put node).nodes := by
  have hmem : node.id ∈ builder.build.ids :=
    List.mem_of_getElem? ((h.index_iff node.id place).1 hplace)
  rw [Graph.put, if_pos hmem]
  unfold upsert
  rw [hplace]
  apply List.ext_getElem?
  intro position
  simp only [build, Array.toList_setIfInBounds, List.getElem?_set, List.getElem?_map,
    Array.getElem?_toList, Array.length_toList]
  cases hold : builder.nodes[position]? with
  | none =>
    have hle : builder.nodes.size ≤ position := Array.getElem?_eq_none_iff.1 hold
    by_cases heq : place = position
    · rw [if_pos heq, if_neg (by omega), Option.map_none]
    · rw [if_neg heq, Option.map_none]
  | some old =>
    have hlt : position < builder.nodes.size := (Array.getElem?_eq_some_iff.1 hold).1
    have hid := h.id_eq_iff hplace hold
    by_cases heq : place = position
    · rw [if_pos heq, if_pos (by omega), Option.map_some, if_pos (hid.2 heq)]
    · rw [if_neg heq, Option.map_some, if_neg (mt hid.1 heq)]

private theorem nodes_upsert_of_none (h : builder.Consistent)
    (hplace : builder.index[node.id]? = none) :
    (builder.upsert node).build.nodes = (builder.build.put node).nodes := by
  rw [Graph.put, if_neg (h.index_eq_none_iff.1 hplace)]
  unfold upsert
  rw [hplace]
  simp [build]

theorem edges_upsert : (builder.upsert node).edges = builder.edges := by
  unfold upsert
  split <;> rfl

theorem Consistent.nodes_upsert (h : builder.Consistent) :
    (builder.upsert node).build.nodes = (builder.build.put node).nodes := by
  cases hplace : builder.index[node.id]? with
  | none => exact nodes_upsert_of_none h hplace
  | some place => exact nodes_upsert_of_some h hplace

theorem Consistent.ids_upsert (h : builder.Consistent) :
    (builder.upsert node).build.ids =
      if node.id ∈ builder.build.ids then builder.build.ids
      else builder.build.ids ++ [node.id] := by
  rw [← Graph.ids_put]
  exact congrArg (List.map (·.id)) h.nodes_upsert

theorem Consistent.ids_prefix_upsert (h : builder.Consistent) :
    builder.build.ids <+: (builder.upsert node).build.ids := by
  rw [h.ids_upsert]
  split_ifs
  · exact List.prefix_refl _
  · exact List.prefix_append _ _

theorem Consistent.build_upsert (h : builder.Consistent) (node : Node) :
    (builder.upsert node).build = builder.build.put node := by
  apply Graph.ext h.nodes_upsert
  rw [Graph.edges_put]
  exact h.edges_build edges_upsert h.ids_prefix_upsert

theorem Consistent.upsert (h : builder.Consistent) (node : Node) :
    (builder.upsert node).Consistent := by
  refine ⟨?_, h.edge_lt_of_prefix edges_upsert h.ids_prefix_upsert⟩
  intro id place
  rw [h.ids_upsert]
  cases hplace : builder.index[node.id]? with
  | some old =>
    have hmem : node.id ∈ builder.build.ids :=
      List.mem_of_getElem? ((h.index_iff _ _).1 hplace)
    rw [if_pos hmem, ← h.index_iff]
    unfold GraphBuilder.upsert
    rw [hplace]
  | none =>
    have hnew := h.index_eq_none_iff.1 hplace
    rw [if_neg hnew]
    unfold GraphBuilder.upsert
    rw [hplace]
    simp only [Std.HashMap.getElem?_insert, beq_iff_eq]
    by_cases hid : node.id = id
    -- the new node comes last, and no earlier one has its id
    · subst hid
      rw [if_pos rfl, Option.some.injEq, ← length_ids]
      constructor
      · rintro rfl
        simp
      · intro hlast
        by_contra hne
        rw [List.getElem?_append] at hlast
        split_ifs at hlast with hlt
        · exact hnew (List.mem_of_getElem? hlast)
        · have := (List.getElem?_eq_some_iff.1 hlast).1
          simp only [List.length_singleton] at this
          omega
    · rw [if_neg hid, h.index_iff, List.getElem?_append]
      split_ifs with hlt
      · rfl
      · rw [List.getElem?_eq_none (by omega)]
        constructor
        · intro hsome
          cases hsome
        · intro hlast
          exact absurd (List.mem_singleton.1 (List.mem_of_getElem? hlast)).symm hid

theorem Consistent.build_mention (h : builder.Consistent) (id : String) :
    (builder.mention id).build = builder.build.mention id := by
  unfold mention Graph.mention
  by_cases hid : id ∈ builder.build.ids
  · rw [if_pos (h.contains_iff.2 hid), if_pos hid]
  · rw [if_neg (mt h.contains_iff.1 hid), if_neg hid, h.build_upsert]

theorem Consistent.mention (h : builder.Consistent) (id : String) :
    (builder.mention id).Consistent := by
  unfold GraphBuilder.mention
  split
  · exact h
  · exact h.upsert _

private theorem push_edge (h : builder.Consistent) {source target : Nat}
    (hsource : builder.build.ids[source]? = some edge.source)
    (htarget : builder.build.ids[target]? = some edge.target) :
    let pushed := { builder with edges := builder.edges.push (source, target, edge.relation) }
    pushed.Consistent ∧
      pushed.build = { builder.build with edges := builder.build.edges ++ [edge] } := by
  refine ⟨⟨h.index_iff, ?_⟩, Graph.ext rfl ?_⟩
  · intro added hadded
    rcases Array.mem_push.1 hadded with hold | rfl
    · exact h.edge_lt added hold
    · exact ⟨(List.getElem?_eq_some_iff.1 hsource).1, (List.getElem?_eq_some_iff.1 htarget).1⟩
  · have hnew : builder.edgeAt? (source, target, edge.relation) = some edge := by
      rw [edgeAt?_eq, hsource, htarget]
      rfl
    change (builder.edges.push (source, target, edge.relation)).toList.filterMap builder.edgeAt? = _
    rw [Array.toList_push, List.filterMap_append, List.filterMap_cons_some hnew]
    rfl

private theorem addEdge_spec (h : builder.Consistent) (edge : Edge) :
    (builder.addEdge edge).Consistent ∧
      (builder.addEdge edge).build = builder.build.connect edge := by
  have hfirst := h.mention edge.source
  have hboth := hfirst.mention edge.target
  have hbuild : ((builder.mention edge.source).mention edge.target).build =
      (builder.build.mention edge.source).mention edge.target := by
    rw [hfirst.build_mention, h.build_mention]
  have hends : edge.source ∈ ((builder.mention edge.source).mention edge.target).build.ids ∧
      edge.target ∈ ((builder.mention edge.source).mention edge.target).build.ids := by
    rw [hbuild]
    simp only [Graph.mem_ids_mention, true_or, or_true, and_self]
  obtain ⟨source, hsource⟩ := List.mem_iff_getElem?.1 hends.1
  obtain ⟨target, htarget⟩ := List.mem_iff_getElem?.1 hends.2
  simp only [addEdge, place?, (hboth.index_iff _ _).2 hsource, (hboth.index_iff _ _).2 htarget]
  obtain ⟨hconsistent, hpush⟩ := push_edge hboth hsource htarget
  refine ⟨hconsistent, hpush.trans ?_⟩
  rw [hbuild]
  rfl

theorem Consistent.addEdge (h : builder.Consistent) (edge : Edge) :
    (builder.addEdge edge).Consistent :=
  (addEdge_spec h edge).1

theorem Consistent.build_addEdge (h : builder.Consistent) (edge : Edge) :
    (builder.addEdge edge).build = builder.build.connect edge :=
  (addEdge_spec h edge).2

theorem Consistent.node?_eq_some_iff (h : builder.Consistent) :
    builder.node? id = some node ↔ node ∈ builder.build.nodes ∧ node.id = id := by
  unfold node? place?
  rw [nodes_build, Array.mem_toList_iff, Option.bind_eq_some_iff]
  constructor
  · rintro ⟨place, hplace, hget⟩
    have hid := (h.id_eq_iff hplace hget).2 rfl
    exact ⟨Array.mem_of_getElem? hget, hid⟩
  · rintro ⟨hmem, rfl⟩
    obtain ⟨place, hget⟩ := Array.mem_iff_getElem?.1 hmem
    refine ⟨place, ?_, hget⟩
    rw [h.index_iff, getElem?_ids, hget, Option.map_some]

theorem Consistent.nodes_modify (h : builder.Consistent) (id : String) (change : Node → Node) :
    (builder.modify id change).build.nodes =
      builder.build.nodes.map fun node => if node.id = id then change node else node := by
  unfold modify place?
  cases hplace : builder.index[id]? with
  | none =>
    have hnone := h.index_eq_none_iff.1 hplace
    refine congrArg Graph.nodes (Graph.mapNodes_eq_self ?_).symm
    intro node hnode
    have hid : node.id ∈ builder.build.ids := Graph.mem_ids_of_mem hnode
    exact if_neg fun heq : node.id = id => hnone (heq ▸ hid)
  | some place =>
    apply List.ext_getElem?
    intro position
    simp only [build, Array.toList_modify, List.getElem?_modify, List.getElem?_map,
      Array.getElem?_toList]
    cases hold : builder.nodes[position]? with
    | none => rfl
    | some old =>
      have hid := h.id_eq_iff hplace hold
      by_cases heq : place = position
      · simp [heq, hid.2 heq]
      · simp [heq, mt hid.1 heq]

theorem edges_modify (builder : GraphBuilder) (id : String) (change : Node → Node) :
    (builder.modify id change).edges = builder.edges := by
  unfold modify
  split <;> rfl

theorem index_modify (builder : GraphBuilder) (id : String) (change : Node → Node) :
    (builder.modify id change).index = builder.index := by
  unfold modify
  split <;> rfl

theorem Consistent.ids_modify (h : builder.Consistent) (id : String) (change : Node → Node)
    (hkeeps : ∀ node, (change node).id = node.id) :
    (builder.modify id change).build.ids = builder.build.ids := by
  rw [Graph.ids, h.nodes_modify, List.map_map]
  apply List.map_congr_left
  intro node _
  by_cases hid : node.id = id <;> simp [hid, hkeeps]

theorem Consistent.build_modify (h : builder.Consistent) (id : String) (change : Node → Node)
    (hkeeps : ∀ node, (change node).id = node.id) :
    (builder.modify id change).build =
      builder.build.mapNodes fun node => if node.id = id then change node else node := by
  apply Graph.ext (h.nodes_modify id change)
  exact h.edges_build (edges_modify builder id change)
    (h.ids_modify id change hkeeps ▸ List.prefix_refl _)

theorem Consistent.modify (h : builder.Consistent) (id : String) (change : Node → Node)
    (hkeeps : ∀ node, (change node).id = node.id) : (builder.modify id change).Consistent := by
  constructor
  · rw [h.ids_modify id change hkeeps, index_modify]
    exact h.index_iff
  · rw [h.ids_modify id change hkeeps, edges_modify]
    exact h.edge_lt

end CodeGraph.GraphBuilder
