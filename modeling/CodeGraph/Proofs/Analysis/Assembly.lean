import CodeGraph.Analysis.Assembly
import CodeGraph.Proofs.Graph.Health
import CodeGraph.Proofs.Lookup

/-! The graph that the outlines of some files make together. Its nodes are those of the files, the
last one of each id, and packages for all other ends of edges; its edges are those of the files in
order; complexity and health follow from these. -/
namespace CodeGraph

namespace Graph

def ofParts (nodes : List Node) (edges : List Edge) : Graph :=
  edges.foldl connect (nodes.foldl put empty)

def finished (graph : Graph) (policy : HealthPolicy) (node : Node) : Node :=
  graph.scored policy (graph.rolledUp node)

variable {graph : Graph} {nodes : List Node} {edges : List Edge} {node : Node}

theorem ids_ofParts (nodes : List Node) (edges : List Edge) :
    (ofParts nodes edges).ids =
      (nodes.map (·.id) ++ edges.flatMap fun edge => [edge.source, edge.target]).eraseDups := by
  unfold ofParts
  have hnodes : (nodes.foldl put empty).ids = (nodes.map (·.id)).eraseDups := by
    induction nodes using List.reverseRecOn with
    | nil => rfl
    | append_singleton nodes node ih =>
      rw [List.foldl_concat, List.map_append]
      exact ids_put_of_eq ih
  induction edges using List.reverseRecOn with
  | nil => simpa using hnodes
  | append_singleton edges edge ih =>
    rw [List.foldl_concat, List.flatMap_append, ← List.append_assoc, ids_connect_of_eq ih]
    simp

theorem nodup_ids_ofParts (nodes : List Node) (edges : List Edge) :
    (ofParts nodes edges).ids.Nodup :=
  ids_ofParts nodes edges ▸ nodup_eraseDups _

@[simp] theorem edges_ofParts (nodes : List Node) (edges : List Edge) :
    (ofParts nodes edges).edges = edges := by
  unfold ofParts
  have hnodes : (nodes.foldl put empty).edges = [] := by
    induction nodes using List.reverseRecOn with
    | nil => rfl
    | append_singleton nodes node ih => rw [List.foldl_concat, edges_put, ih]
  induction edges using List.reverseRecOn with
  | nil => exact hnodes
  | append_singleton edges edge ih => rw [List.foldl_concat, edges_connect, ih]

/-- Of the nodes of one id the last is kept. -/
theorem mem_foldl_put :
    node ∈ (nodes.foldl put empty).nodes ↔ nodes.reverse.find? (·.id = node.id) = some node := by
  induction nodes using List.reverseRecOn with
  | nil => simp [empty]
  | append_singleton nodes last ih =>
    rw [List.foldl_concat, mem_put, List.reverse_concat, ih]
    by_cases hid : last.id = node.id
    · rw [List.find?_cons_of_pos (by simpa using hid), Option.some.injEq]
      constructor
      · rintro (rfl | ⟨-, hne⟩)
        · rfl
        · exact absurd hid.symm hne
      · exact fun heq => .inl heq.symm
    · rw [List.find?_cons_of_neg (by simpa using hid)]
      constructor
      · rintro (rfl | ⟨hfind, -⟩)
        · exact absurd rfl hid
        · exact hfind
      · exact fun hfind => .inr ⟨hfind, Ne.symm hid⟩

theorem mem_foldl_connect : node ∈ (edges.foldl connect graph).nodes ↔
    node ∈ graph.nodes ∨
      node = .package node.id ∧ node.id ∉ graph.ids ∧
        ∃ edge ∈ edges, node.id = edge.source ∨ node.id = edge.target := by
  induction edges generalizing graph with
  | nil => simp
  | cons edge rest ih =>
    rw [List.foldl_cons, ih, mem_connect, mem_ids_connect]
    simp only [List.mem_cons, exists_eq_or_imp]
    constructor
    · rintro ((hold | ⟨hpackage, hnew, hend⟩) | ⟨hpackage, hnew, hrest⟩)
      · exact .inl hold
      · exact .inr ⟨hpackage, hnew, .inl hend⟩
      · exact .inr ⟨hpackage, fun hmem => hnew (.inl hmem), .inr hrest⟩
    · rintro (hold | ⟨hpackage, hnew, hend | hrest⟩)
      · exact .inl (.inl hold)
      · exact .inl (.inr ⟨hpackage, hnew, hend⟩)
      · by_cases hend : node.id = edge.source ∨ node.id = edge.target
        · exact .inl (.inr ⟨hpackage, hnew, hend⟩)
        · exact .inr ⟨hpackage, not_or.2 ⟨hnew, hend⟩, hrest⟩

/-- A node was the last of its id, or it is a package that only edges mention. -/
theorem mem_ofParts : node ∈ (ofParts nodes edges).nodes ↔
    nodes.reverse.find? (·.id = node.id) = some node ∨
      node = .package node.id ∧ (∀ other ∈ nodes, other.id ≠ node.id) ∧
        ∃ edge ∈ edges, node.id = edge.source ∨ node.id = edge.target := by
  have hids : node.id ∉ (nodes.foldl put empty).ids ↔ ∀ other ∈ nodes, other.id ≠ node.id := by
    change node.id ∉ (ofParts nodes []).ids ↔ _
    rw [ids_ofParts]
    simp
  unfold ofParts
  rw [mem_foldl_connect, mem_foldl_put, hids]

theorem mem_of_find? (h : nodes.reverse.find? (·.id = node.id) = some node) : node ∈ nodes :=
  List.mem_reverse.1 (List.mem_of_find?_eq_some h)

@[simp] theorem id_finished (graph : Graph) (policy : HealthPolicy) (node : Node) :
    (graph.finished policy node).id = node.id := by
  simp [finished]

@[simp] theorem kind_finished (graph : Graph) (policy : HealthPolicy) (node : Node) :
    (graph.finished policy node).kind = node.kind := by
  simp [finished]

@[simp] theorem owner_finished (graph : Graph) (policy : HealthPolicy) (node : Node) :
    (graph.finished policy node).owner = node.owner := by
  simp [finished]

theorem finished_of_ne_file (policy : HealthPolicy) (h : node.kind ≠ .file) :
    graph.finished policy node = node := by
  unfold finished rolledUp scored
  rw [if_neg h, if_neg h]

theorem finished_of_file (policy : HealthPolicy) (h : node.kind = .file) :
    graph.finished policy node =
      let complexity := boundedComplexity (node.complexity.toNat + graph.ownedComplexity node.id)
      { node with
        complexity
        health? :=
          some (policy.score complexity (graph.outDegree node.id .imports) node.lines) } := by
  unfold finished rolledUp scored
  rw [if_pos h, if_pos h]

/-- What the functions of a file have does not change when files are finished. -/
theorem ownedComplexity_finished (graph : Graph) (policy : HealthPolicy) (path : String) :
    (graph.mapNodes (graph.finished policy)).ownedComplexity path = graph.ownedComplexity path := by
  unfold ownedComplexity
  rw [nodes_mapNodes, List.filter_map, List.map_map]
  simp only [Function.comp_def, kind_finished, owner_finished]
  refine congrArg List.sum (List.map_congr_left ?_)
  intro node hnode
  have hkind : node.kind = .function := by
    have := List.of_mem_filter hnode
    simp only [decide_eq_true_eq] at this
    exact this.1
  rw [finished_of_ne_file policy (by rw [hkind]; decide)]

theorem foldl_upsert {builder : GraphBuilder} (h : builder.Consistent) (nodes : List Node) :
    (nodes.foldl .upsert builder).Consistent ∧
      (nodes.foldl .upsert builder).build = nodes.foldl put builder.build := by
  induction nodes generalizing builder with
  | nil => exact ⟨h, rfl⟩
  | cons node rest ih =>
    obtain ⟨hconsistent, hbuild⟩ := ih (h.upsert node)
    exact ⟨hconsistent, hbuild.trans (by rw [h.build_upsert]; rfl)⟩

theorem foldl_addEdge {builder : GraphBuilder} (h : builder.Consistent) (edges : List Edge) :
    (edges.foldl .addEdge builder).Consistent ∧
      (edges.foldl .addEdge builder).build = edges.foldl connect builder.build := by
  induction edges generalizing builder with
  | nil => exact ⟨h, rfl⟩
  | cons edge rest ih =>
    obtain ⟨hconsistent, hbuild⟩ := ih (h.addEdge edge)
    exact ⟨hconsistent, hbuild.trans (by rw [h.build_addEdge]; rfl)⟩

/-- The nodes and edges of files before complexity and health are known. -/
def gather (files : List ResolvedOutline) : Graph :=
  ofParts (files.flatMap (·.nodes)) (files.flatMap (·.edges))

theorem assemble_eq (policy : HealthPolicy) (files : List ResolvedOutline) :
    assemble policy files = (gather files).mapNodes ((gather files).finished policy) := by
  obtain ⟨hnodes, hbuildNodes⟩ :=
    foldl_upsert GraphBuilder.consistent_empty (files.flatMap (·.nodes))
  obtain ⟨hedges, hbuildEdges⟩ := foldl_addEdge hnodes (files.flatMap (·.edges))
  rw [hbuildNodes] at hbuildEdges
  unfold assemble
  rw [hedges.rollUp.build_scoreHealth, hedges.build_rollUp, hbuildEdges, mapNodes_mapNodes]
  rfl

end Graph

namespace ResolvedOutline

variable {file : ResolvedOutline} {node : Node}

theorem mem_nodes : node ∈ file.nodes ↔
    node = .file file.outline.file (Path.fileName file.outline.file) file.outline.lines ∨
      (∃ type ∈ file.outline.types, node = .type file.outline.file type.name type.methods) ∨
      ∃ function ∈ file.outline.functions,
        node = .function file.outline.file function.name function.complexity := by
  simp only [nodes, List.mem_append, List.mem_cons, List.mem_map, eq_comm, or_assoc]

/-- Only files, classes and functions are nodes of a file, and the file owns them. -/
theorem kind_ne_package (h : node ∈ file.nodes) : node.kind ≠ .package := by
  rcases mem_nodes.1 h with rfl | ⟨type, -, rfl⟩ | ⟨function, -, rfl⟩ <;> exact nofun

theorem owner_of_mem (h : node ∈ file.nodes) : node.owner = file.outline.file := by
  rcases mem_nodes.1 h with rfl | ⟨type, -, rfl⟩ | ⟨function, -, rfl⟩ <;> rfl

/-- The functions of a file by id, with their complexities. -/
def complexities (file : ResolvedOutline) : List (String × UInt32) :=
  file.outline.functions.map fun function =>
    (Node.functionId file.outline.file function.name, function.complexity)

theorem map_functions (file : ResolvedOutline) :
    (file.nodes.filter (·.kind = .function)).map (fun node => (node.id, node.complexity)) =
      file.complexities := by
  have htypes : (file.outline.types.map fun type =>
      Node.type file.outline.file type.name type.methods).filter (·.kind = .function) = [] := by
    simp [Node.type]
  simp [nodes, complexities, htypes, Node.file, Node.function, List.filter_map, Function.comp_def]

end ResolvedOutline

namespace Graph

variable {files : List ResolvedOutline} {policy : HealthPolicy} {node : Node}

theorem edges_assemble (policy : HealthPolicy) (files : List ResolvedOutline) :
    (assemble policy files).edges = files.flatMap (·.edges) := by
  rw [assemble_eq, edges_mapNodes, gather, edges_ofParts]

theorem ids_assemble (policy : HealthPolicy) (files : List ResolvedOutline) :
    (assemble policy files).ids = (gather files).ids := by
  rw [assemble_eq, ids_mapNodes (id_finished _ policy)]

theorem nodup_ids_assemble (policy : HealthPolicy) (files : List ResolvedOutline) :
    (assemble policy files).ids.Nodup :=
  ids_assemble policy files ▸ nodup_ids_ofParts _ _

theorem mem_assemble : node ∈ (assemble policy files).nodes ↔
    ∃ base ∈ (gather files).nodes, (gather files).finished policy base = node := by
  rw [assemble_eq, nodes_mapNodes, List.mem_map]

theorem outDegree_assemble (policy : HealthPolicy) (files : List ResolvedOutline) (id : String)
    (relation : Relation) :
    (assemble policy files).outDegree id relation = (gather files).outDegree id relation := by
  rw [assemble_eq]
  rfl

theorem ownedComplexity_assemble (policy : HealthPolicy) (files : List ResolvedOutline)
    (path : String) :
    (assemble policy files).ownedComplexity path = (gather files).ownedComplexity path := by
  rw [assemble_eq, ownedComplexity_finished]

/-- A node that is no package is the last of its id among the nodes of the files. -/
theorem find?_of_mem_gather (h : node ∈ (gather files).nodes) (hkind : node.kind ≠ .package) :
    (files.flatMap (·.nodes)).reverse.find? (·.id = node.id) = some node := by
  refine (mem_ofParts.1 h).resolve_right ?_
  rintro ⟨hpackage, -⟩
  rw [hpackage] at hkind
  exact hkind rfl

theorem kind_ne_package_of_mem (h : node ∈ files.flatMap (·.nodes)) : node.kind ≠ .package := by
  obtain ⟨file, -, hnode⟩ := List.mem_flatMap.1 h
  exact ResolvedOutline.kind_ne_package hnode

theorem exists_file_of_mem_gather (h : node ∈ (gather files).nodes) (hkind : node.kind ≠ .package) :
    ∃ file ∈ files, node ∈ file.nodes :=
  List.mem_flatMap.1 (mem_of_find? (find?_of_mem_gather h hkind))

/-- A package is what edges alone mention. -/
theorem kind_eq_package_iff (h : node ∈ (gather files).nodes) : node.kind = .package ↔
    node = .package node.id ∧ (∀ other ∈ files.flatMap (·.nodes), other.id ≠ node.id) ∧
      ∃ edge ∈ files.flatMap (·.edges), node.id = edge.source ∨ node.id = edge.target := by
  constructor
  · intro hkind
    refine (mem_ofParts.1 h).resolve_left fun hfind => ?_
    exact kind_ne_package_of_mem (mem_of_find? hfind) hkind
  · rintro ⟨hpackage, -⟩
    rw [hpackage]
    rfl

private theorem find?_filter_of_find? {nodes : List Node} {test : Node → Bool}
    (h : nodes.find? test = some node) (keep : Node → Bool) (hkeep : keep node) :
    (nodes.filter keep).find? test = some node := by
  rw [List.find?_eq_some_iff_append] at h
  obtain ⟨htest, before, after, rfl, hbefore⟩ := h
  rw [List.find?_eq_some_iff_append]
  refine ⟨htest, before.filter keep, after.filter keep, ?_, ?_⟩
  · rw [List.filter_append, List.filter_cons_of_pos hkeep]
  · exact fun other hother => hbefore other (List.mem_of_mem_filter hother)

/-- The complexity of a function is that of the last function of its id. -/
theorem lookup_complexities (h : node ∈ (gather files).nodes) (hkind : node.kind = .function) :
    (files.flatMap (·.complexities)).reverse.lookup node.id = some node.complexity := by
  have hfind := find?_of_mem_gather h (by rw [hkind]; decide)
  have hkeep : decide (node.kind = .function) = true := by simpa using hkind
  have hlast := find?_filter_of_find? hfind (·.kind = .function) hkeep
  have hentries : files.flatMap (·.complexities) =
      ((files.flatMap (·.nodes)).filter (·.kind = .function)).map
        fun node => (node.id, node.complexity) := by
    rw [List.filter_flatMap, List.map_flatMap]
    simp only [ResolvedOutline.map_functions]
  rw [hentries, ← List.map_reverse, ← List.filter_reverse, Lookup.lookup_map, hlast]
  rfl

theorem complexity_of_file (h : node ∈ (assemble policy files).nodes) (hkind : node.kind = .file) :
    node.complexity.toNat =
      min ((assemble policy files).ownedComplexity node.id) (2 ^ 32 - 1) := by
  obtain ⟨base, hbase, rfl⟩ := mem_assemble.1 h
  rw [kind_finished] at hkind
  obtain ⟨file, -, hnode⟩ := exists_file_of_mem_gather hbase (by rw [hkind]; decide)
  have hzero : base.complexity = 0 := by
    rcases ResolvedOutline.mem_nodes.1 hnode with rfl | ⟨type, -, rfl⟩ | ⟨function, -, rfl⟩
    · rfl
    · cases hkind
    · cases hkind
  rw [id_finished, ownedComplexity_assemble, finished_of_file policy hkind, toNat_boundedComplexity,
    hzero, UInt32.toNat_zero, Nat.zero_add]
  rfl

theorem health_of_file (h : node ∈ (assemble policy files).nodes) (hkind : node.kind = .file) :
    node.health? = some (policy.score node.complexity
      ((assemble policy files).outDegree node.id .imports) node.lines) := by
  obtain ⟨base, hbase, rfl⟩ := mem_assemble.1 h
  rw [kind_finished] at hkind
  rw [id_finished, outDegree_assemble, finished_of_file policy hkind]

theorem mem_gather_of_ne_file (h : node ∈ (assemble policy files).nodes)
    (hkind : node.kind ≠ .file) : node ∈ (gather files).nodes := by
  obtain ⟨base, hbase, rfl⟩ := mem_assemble.1 h
  rw [kind_finished] at hkind
  rwa [finished_of_ne_file policy hkind]

theorem type_of_mem (h : node ∈ (assemble policy files).nodes) (hkind : node.kind = .type) :
    node.health? = none ∧ node.complexity = 0 := by
  have hbase := mem_gather_of_ne_file h (by rw [hkind]; decide)
  obtain ⟨file, -, hnode⟩ := exists_file_of_mem_gather hbase (by rw [hkind]; decide)
  rcases ResolvedOutline.mem_nodes.1 hnode with rfl | ⟨type, -, rfl⟩ | ⟨function, -, rfl⟩
  · cases hkind
  · exact ⟨rfl, rfl⟩
  · cases hkind

theorem function_of_mem (h : node ∈ (assemble policy files).nodes) (hkind : node.kind = .function) :
    node.health? = none ∧
      (files.flatMap (·.complexities)).reverse.lookup node.id = some node.complexity := by
  have hbase := mem_gather_of_ne_file h (by rw [hkind]; decide)
  refine ⟨?_, lookup_complexities hbase hkind⟩
  obtain ⟨file, -, hnode⟩ := exists_file_of_mem_gather hbase (by rw [hkind]; decide)
  rcases ResolvedOutline.mem_nodes.1 hnode with rfl | ⟨type, -, rfl⟩ | ⟨function, -, rfl⟩
  · cases hkind
  · cases hkind
  · rfl

theorem package_of_mem (h : node ∈ (assemble policy files).nodes) (hkind : node.kind = .package) :
    node = .package node.id := by
  have hbase := mem_gather_of_ne_file h (by rw [hkind]; decide)
  exact ((kind_eq_package_iff hbase).1 hkind).1

/-- A node is a package if an edge mentions its id and no node of a file has it. -/
theorem package_iff_of_mem (h : node ∈ (assemble policy files).nodes) : node.kind = .package ↔
    (∃ edge ∈ (assemble policy files).edges, node.id = edge.source ∨ node.id = edge.target) ∧
      ∀ file ∈ files, ∀ other ∈ file.nodes, other.id ≠ node.id := by
  rw [edges_assemble]
  obtain ⟨base, hbase, rfl⟩ := mem_assemble.1 h
  rw [kind_finished, id_finished]
  constructor
  · intro hkind
    obtain ⟨-, hnew, hend⟩ := (kind_eq_package_iff hbase).1 hkind
    refine ⟨hend, fun file hfile other hother => ?_⟩
    exact hnew other (List.mem_flatMap.2 ⟨file, hfile, hother⟩)
  · rintro ⟨-, hnew⟩
    by_contra hkind
    obtain ⟨file, hfile, hnode⟩ := exists_file_of_mem_gather hbase hkind
    exact hnew file hfile base hnode rfl

theorem forall_nodes_id_ne_iff (file : ResolvedOutline) (id : String) :
    (∀ other ∈ file.nodes, other.id ≠ id) ↔ id ≠ file.outline.file ∧
      (∀ type ∈ file.outline.types, id ≠ Node.typeId file.outline.file type.name) ∧
      ∀ function ∈ file.outline.functions,
        id ≠ Node.functionId file.outline.file function.name := by
  simp only [ResolvedOutline.mem_nodes]
  constructor
  · intro h
    refine ⟨(h _ (.inl rfl)).symm, fun type htype => ?_, fun function hfunction => ?_⟩
    · exact (h _ (.inr (.inl ⟨type, htype, rfl⟩))).symm
    · exact (h _ (.inr (.inr ⟨function, hfunction, rfl⟩))).symm
  · rintro ⟨hfile, htypes, hfunctions⟩ other (rfl | ⟨type, htype, rfl⟩ | ⟨function, hfunction, rfl⟩)
    · exact hfile.symm
    · exact (htypes type htype).symm
    · exact (hfunctions function hfunction).symm

/-- The edges are those of the files in order. A file has the bounded sum of the complexities of
its functions and the health that follows from it; classes and functions have no health, and a
function has the complexity it was given last. All other ends of edges are packages. -/
theorem assemble_accounts (policy : HealthPolicy) (files : List ResolvedOutline) :
    let graph := assemble policy files
    graph.edges = files.flatMap (fun file =>
      (file.imports.map fun resolution => ⟨file.outline.file, resolution.target, .imports⟩) ++
        file.outline.inheritance ++ file.outline.calls) ∧
    graph.ids = ((files.flatMap (·.nodes)).map (·.id) ++
      graph.edges.flatMap fun edge => [edge.source, edge.target]).eraseDups ∧
    (∀ node ∈ graph.nodes, node.kind = .file →
      node.complexity.toNat = min (graph.ownedComplexity node.id) (2 ^ 32 - 1) ∧
      node.health? =
        some (policy.score node.complexity (graph.outDegree node.id .imports) node.lines)) ∧
    (∀ node ∈ graph.nodes, node.kind = .type → node.health? = none ∧ node.complexity = 0) ∧
    (∀ node ∈ graph.nodes, node.kind = .function → node.health? = none ∧
      (files.flatMap fun file => file.outline.functions.map fun function =>
        (Node.functionId file.outline.file function.name, function.complexity)).reverse.lookup
          node.id = some node.complexity) ∧
    ∀ node ∈ graph.nodes,
      (node.kind = .package → node = .package node.id) ∧
      (node.kind = .package ↔
        (∃ edge ∈ graph.edges, node.id = edge.source ∨ node.id = edge.target) ∧
        ∀ file ∈ files, node.id ≠ file.outline.file ∧
          (∀ type ∈ file.outline.types, node.id ≠ Node.typeId file.outline.file type.name) ∧
          ∀ function ∈ file.outline.functions,
            node.id ≠ Node.functionId file.outline.file function.name) := by
  intro graph
  have hedges : graph.edges = files.flatMap (·.edges) := edges_assemble policy files
  refine ⟨hedges, ?_, fun node hnode hkind => ?_, fun node hnode hkind => type_of_mem hnode hkind,
    fun node hnode hkind => function_of_mem hnode hkind, fun node hnode => ⟨?_, ?_⟩⟩
  · rw [hedges, ids_assemble]
    exact ids_ofParts _ _
  · exact ⟨complexity_of_file hnode hkind, health_of_file hnode hkind⟩
  · exact package_of_mem hnode
  · simpa only [forall_nodes_id_ne_iff] using package_iff_of_mem hnode

end Graph

end CodeGraph
