import CodeGraph.Proofs.Analysis.WellTyped

/-! Isolation of files. What a graph holds of the other files, it would hold without the file of a
path: their nodes with complexity and health, and the edges that leave them. -/
namespace CodeGraph

/-- Whether a node is a file, a class or a function that does not belong to the file of a path. -/
def Node.isApart (path : String) (node : Node) : Bool := node.kind ≠ .package ∧ node.owner ≠ path

namespace Graph

/-- The files, classes and functions that do not belong to the file of a path. -/
def nodesApart (graph : Graph) (path : String) : List Node := graph.nodes.filter (·.isApart path)

/-- The edges that leave files, classes and functions that do not belong to the file of a path. -/
def edgesApart (graph : Graph) (path : String) : List Edge :=
  graph.edges.filter fun edge => (graph.nodesApart path).any (·.id = edge.source)

def others (files : List ResolvedOutline) (path : String) : List ResolvedOutline :=
  files.filter (·.outline.file ≠ path)

variable {graph : Graph} {files : List ResolvedOutline} {policy : HealthPolicy} {path : String}
  {node : Node} {edge : Edge}

theorem others_others (files : List ResolvedOutline) (path : String) :
    others (others files path) path = others files path := by
  simp [others]

theorem mem_others {file : ResolvedOutline} :
    file ∈ others files path ↔ file ∈ files ∧ file.outline.file ≠ path := by
  simp [others]

/-- What is chosen from all files is chosen from the others if the file of the path has no part in
it. -/
theorem filter_flatMap_others {α : Type} (parts : ResolvedOutline → List α) {choose : α → Bool}
    (h : ∀ file ∈ files, file.outline.file = path → ∀ part ∈ parts file, choose part = false) :
    (files.flatMap parts).filter choose = ((others files path).flatMap parts).filter choose := by
  induction files with
  | nil => rfl
  | cons file rest ih =>
    have hrest := ih fun other hother => h other (List.mem_cons_of_mem _ hother)
    rw [List.flatMap_cons, List.filter_append, hrest]
    by_cases hfile : file.outline.file = path
    · have hnone : (parts file).filter choose = [] := by
        refine List.filter_eq_nil_iff.2 fun part hpart => ?_
        simp [h file List.mem_cons_self hfile part hpart]
      have hskip : others (file :: rest) path = others rest path :=
        List.filter_cons_of_neg (by simpa using hfile)
      rw [hnone, hskip, List.nil_append]
    · have hstay : others (file :: rest) path = file :: others rest path :=
        List.filter_cons_of_pos (by simpa using hfile)
      rw [hstay, List.flatMap_cons, List.filter_append]

theorem nodes_restrict_foldl_connect {keep : Node → Bool} (h : ∀ id, keep (.package id) = false)
    (edges : List Edge) (graph : Graph) :
    ((edges.foldl connect graph).restrict keep).nodes = (graph.restrict keep).nodes := by
  induction edges generalizing graph with
  | nil => rfl
  | cons edge rest ih => rw [List.foldl_cons, ih, nodes_restrict_connect h]

theorem restrict_foldl_put {keep : Node → Bool} {nodes : List Node}
    (h : ∀ node ∈ nodes, ∀ other ∈ nodes, node.id = other.id → keep node = keep other) :
    (nodes.foldl put empty).restrict keep = (nodes.filter keep).foldl put empty := by
  induction nodes using List.reverseRecOn with
  | nil => rfl
  | append_singleton nodes last ih =>
    have hnodes := ih fun node hnode other hother =>
      h node (List.mem_append_left _ hnode) other (List.mem_append_left _ hother)
    have hlast : ∀ old ∈ (nodes.foldl put empty).nodes, old.id = last.id →
        keep old = keep last := by
      intro old hold
      have hmem : old ∈ nodes := mem_of_find? (mem_foldl_put.1 hold)
      exact h old (List.mem_append_left _ hmem) last (List.mem_append_right _ List.mem_cons_self)
    rw [List.foldl_concat, restrict_put hlast, hnodes, List.filter_append]
    by_cases hkeep : keep last = true
    · rw [if_pos hkeep, List.filter_cons_of_pos hkeep, List.filter_nil, List.foldl_concat]
    · rw [if_neg hkeep, List.filter_cons_of_neg hkeep, List.filter_nil, List.append_nil]

theorem isApart_of_mem {file : ResolvedOutline} (hnode : node ∈ file.nodes) :
    node.isApart path = true ↔ file.outline.file ≠ path := by
  rw [Node.isApart, ResolvedOutline.owner_of_mem hnode, decide_eq_true_eq]
  exact and_iff_right (ResolvedOutline.kind_ne_package hnode)

theorem filter_isApart_nodes (files : List ResolvedOutline) (path : String) :
    (files.flatMap (·.nodes)).filter (·.isApart path) = (others files path).flatMap (·.nodes) := by
  rw [filter_flatMap_others, List.filter_eq_self]
  · intro node hnode
    obtain ⟨file, hfile, hnode⟩ := List.mem_flatMap.1 hnode
    exact (isApart_of_mem hnode).2 (mem_others.1 hfile).2
  · intro file _ hpath node hnode
    exact Bool.eq_false_iff.2 fun hapart => (isApart_of_mem hnode).1 hapart hpath

/-- The nodes apart from a file are the last of their ids among those of the other files. -/
theorem nodesApart_gather (hplain : ∀ file ∈ files, Path.Plain file.outline.file) (path : String) :
    (gather files).nodesApart path =
      (((others files path).flatMap (·.nodes)).foldl put empty).nodes := by
  have hkeep : ∀ node ∈ files.flatMap (·.nodes), ∀ other ∈ files.flatMap (·.nodes),
      node.id = other.id → node.isApart path = other.isApart path := by
    intro node hnode other hother hid
    obtain ⟨hkind, howner⟩ := kind_eq_and_owner_eq_of_mem hplain hnode hother hid
    simp only [Node.isApart, hkind, howner]
  change ((gather files).restrict (·.isApart path)).nodes = _
  unfold gather ofParts
  rw [nodes_restrict_foldl_connect fun id => rfl, restrict_foldl_put hkeep, filter_isApart_nodes]

theorem nodesApart_gather_others (hplain : ∀ file ∈ files, Path.Plain file.outline.file)
    (path : String) :
    (gather (others files path)).nodesApart path = (gather files).nodesApart path := by
  have hothers : ∀ file ∈ others files path, Path.Plain file.outline.file :=
    fun file hfile => hplain file (mem_others.1 hfile).1
  rw [nodesApart_gather hothers, nodesApart_gather hplain, others_others]

theorem ownedComplexity_eq_apart {owner : String} (h : owner ≠ path) :
    graph.ownedComplexity owner =
      (((graph.nodesApart path).filter fun node => node.kind = .function ∧ node.owner = owner).map
        (·.complexity.toNat)).sum := by
  unfold ownedComplexity nodesApart
  rw [List.filter_filter]
  refine congrArg (fun nodes : List Node => (nodes.map (·.complexity.toNat)).sum) ?_
  refine List.filter_congr fun node _ => ?_
  by_cases howned : node.kind = .function ∧ node.owner = owner
  · simp [Node.isApart, howned.1, howned.2, h]
  · simp [howned]

theorem outDegree_gather_others (hclosed : ∀ file ∈ files, file.outline.Closed) {id : String}
    (h : id ≠ path) :
    (gather (others files path)).outDegree id .imports = (gather files).outDegree id .imports := by
  unfold outDegree gather
  rw [edges_ofParts, edges_ofParts, List.countP_eq_length_filter, List.countP_eq_length_filter,
    ← filter_flatMap_others]
  intro file hfile hpath edge hedge
  rcases ResolvedOutline.cases_of_mem_edges (hclosed file hfile) hedge with ⟨_, _, rfl⟩ |
    ⟨_, _, _, _, rfl⟩ | ⟨_, _, _, _, _, rfl⟩
  · simp [hpath, Ne.symm h]
  · simp
  · simp

/-- A file has itself as its owner. -/
theorem owner_eq_id_of_file (hnode : node ∈ (gather files).nodes) (hkind : node.kind = .file) :
    node.owner = node.id := by
  obtain ⟨file, -, hmem⟩ := exists_file_of_mem_gather hnode (by rw [hkind]; decide)
  rcases ResolvedOutline.mem_nodes.1 hmem with rfl | ⟨_, -, rfl⟩ | ⟨_, -, rfl⟩
  · rfl
  · cases hkind
  · cases hkind

theorem finished_gather_others (hplain : ∀ file ∈ files, Path.Plain file.outline.file)
    (hclosed : ∀ file ∈ files, file.outline.Closed)
    (hnode : node ∈ (gather files).nodesApart path) :
    (gather (others files path)).finished policy node = (gather files).finished policy node := by
  obtain ⟨hmem, hapart⟩ := List.mem_filter.1 hnode
  by_cases hkind : node.kind = .file
  · have hid : node.id ≠ path := by
      rw [← owner_eq_id_of_file hmem hkind]
      exact (of_decide_eq_true hapart).2
    rw [finished_of_file policy hkind, finished_of_file policy hkind,
      outDegree_gather_others hclosed hid, ownedComplexity_eq_apart hid,
      ownedComplexity_eq_apart hid, nodesApart_gather_others hplain]
  · rw [finished_of_ne_file policy hkind, finished_of_ne_file policy hkind]

theorem nodesApart_assemble (policy : HealthPolicy) (files : List ResolvedOutline) (path : String) :
    (assemble policy files).nodesApart path =
      ((gather files).nodesApart path).map ((gather files).finished policy) := by
  have hsame : (fun node : Node => node.isApart path) ∘ (gather files).finished policy =
      fun node => node.isApart path := by
    funext node
    simp only [Function.comp_apply, Node.isApart, kind_finished, owner_finished]
  rw [assemble_eq, nodesApart, nodes_mapNodes, List.filter_map, hsame]
  rfl

/-- The nodes apart from a file are those of the graph without the file. -/
theorem nodesApart_assemble_others (hplain : ∀ file ∈ files, Path.Plain file.outline.file)
    (hclosed : ∀ file ∈ files, file.outline.Closed) (path : String) :
    (assemble policy files).nodesApart path =
      (assemble policy (others files path)).nodesApart path := by
  rw [nodesApart_assemble, nodesApart_assemble, nodesApart_gather_others hplain]
  exact List.map_congr_left fun node hnode => (finished_gather_others hplain hclosed hnode).symm

/-- An edge of a file leaves a node that the file declares. -/
theorem exists_source_of_mem_edges (policy : HealthPolicy) {file : ResolvedOutline}
    (hplain : ∀ file ∈ files, Path.Plain file.outline.file) (hclosed : file.outline.Closed)
    (hfile : file ∈ files) (hedge : edge ∈ file.edges) :
    ∃ node ∈ (assemble policy files).nodes, node.id = edge.source ∧ node.kind ≠ .package ∧
      node.owner = file.outline.file := by
  obtain ⟨declared, hdeclared, hsource⟩ :=
    List.mem_map.1 (ResolvedOutline.ends_mem_ids hclosed hedge).1
  obtain ⟨node, hnode, hid, hkind, howner⟩ :=
    declares_assemble policy hplain hfile hdeclared
  refine ⟨node, hnode, hid.trans hsource, ?_, ?_⟩
  · rw [hkind]
    exact ResolvedOutline.kind_ne_package hdeclared
  · rw [howner]
    exact ResolvedOutline.owner_of_mem hdeclared

/-- An edge leaves what is apart from a file just if it is an edge of another file. -/
theorem any_nodesApart_iff {file : ResolvedOutline}
    (hplain : ∀ file ∈ files, Path.Plain file.outline.file) (hclosed : file.outline.Closed)
    (hfile : file ∈ files) (hedge : edge ∈ file.edges) :
    ((assemble policy files).nodesApart path).any (·.id = edge.source) = true ↔
      file.outline.file ≠ path := by
  obtain ⟨node, hnode, hid, hkind, howner⟩ :=
    exists_source_of_mem_edges policy hplain hclosed hfile hedge
  rw [List.any_eq_true]
  constructor
  · rintro ⟨other, hother, hsame⟩
    obtain ⟨hmem, hapart⟩ := List.mem_filter.1 hother
    have hsame : other.id = node.id := (of_decide_eq_true hsame).trans hid.symm
    rw [← howner, ← eq_of_id_eq (nodup_ids_assemble policy files) hmem hnode hsame]
    exact (of_decide_eq_true hapart).2
  · intro hne
    refine ⟨node, List.mem_filter.2 ⟨hnode, ?_⟩, decide_eq_true hid⟩
    exact decide_eq_true ⟨hkind, howner ▸ hne⟩

/-- The edges that leave what is apart from a file are those of the other files. -/
theorem edgesApart_assemble (hplain : ∀ file ∈ files, Path.Plain file.outline.file)
    (hclosed : ∀ file ∈ files, file.outline.Closed) (path : String) :
    (assemble policy files).edgesApart path = (others files path).flatMap (·.edges) := by
  unfold edgesApart
  rw [edges_assemble, filter_flatMap_others, List.filter_eq_self]
  · intro edge hedge
    obtain ⟨file, hfile, hedge⟩ := List.mem_flatMap.1 hedge
    obtain ⟨hfile, hne⟩ := mem_others.1 hfile
    exact (any_nodesApart_iff hplain (hclosed file hfile) hfile hedge).2 hne
  · intro file hfile hpath edge hedge
    exact Bool.eq_false_iff.2 fun hany =>
      (any_nodesApart_iff hplain (hclosed file hfile) hfile hedge).1 hany hpath

/-- Any other edge leaves what belongs to the file of the path. -/
theorem apart_or_declared_of_mem_edges (hplain : ∀ file ∈ files, Path.Plain file.outline.file)
    (hclosed : ∀ file ∈ files, file.outline.Closed) (path : String) :
    ∀ edge ∈ (assemble policy files).edges, edge ∈ (assemble policy files).edgesApart path ∨
      ∃ kind ≠ .package, (assemble policy files).Declares edge.source kind path := by
  intro edge hedge
  obtain ⟨file, hfile, hmem⟩ := exists_file_of_mem_edges hedge
  by_cases hpath : file.outline.file = path
  · obtain ⟨node, hnode, hid, hkind, howner⟩ :=
      exists_source_of_mem_edges policy hplain (hclosed file hfile) hfile hmem
    exact .inr ⟨node.kind, hkind, node, hnode, hid, rfl, howner.trans hpath⟩
  · rw [edgesApart_assemble hplain hclosed]
    exact .inl (List.mem_flatMap.2 ⟨file, mem_others.2 ⟨hfile, hpath⟩, hmem⟩)

end Graph

namespace Analysis

variable {σ : Type} {parse : Parse} {scope : ComplexityScope}

private theorem filter_of_forall₂ {fetcher : Fetcher (StateM σ)} {path : String}
    {answer : Entry → Except FetchError ByteArray}
    (hanswer : ∀ file, file.path ≠ path → ∀ state, ((fetcher.fetch file).run state).1 = answer file)
    {files : List Entry} {found : List Outline}
    (h : List.Forall₂ (fun file outline => ∃ state,
      outline = outlineFrom parse scope file ((fetcher.fetch file).run state).1) files found) :
    found.filter (·.file ≠ path) =
      (files.filter (·.path ≠ path)).map fun file =>
        outlineFrom parse scope file (answer file) := by
  induction h with
  | nil => rfl
  | @cons file outline files found hfrom _ ih =>
    obtain ⟨state, hfrom⟩ := hfrom
    have hfile : outline.file = file.path := by rw [hfrom, file_outlineFrom]
    by_cases hpath : file.path = path
    · rw [List.filter_cons_of_neg (by simpa [hfile] using hpath),
        List.filter_cons_of_neg (by simpa using hpath), ih]
    · rw [List.filter_cons_of_pos (by simpa [hfile] using hpath),
        List.filter_cons_of_pos (by simpa using hpath), List.map_cons, ih, hfrom,
        hanswer file hpath]

/-- The outlines of the other files are those of the answers that are fetched for them. -/
theorem filter_outlines (parse : Parse) (config : Config) {fetcher : Fetcher (StateM σ)}
    (tree : FileTree) (state : σ) {path : String} {answer : Entry → Except FetchError ByteArray}
    (hanswer : ∀ file, file.path ≠ path →
      ∀ state, ((fetcher.fetch file).run state).1 = answer file) :
    (((outlines parse config fetcher tree).run state).1).filter (·.file ≠ path) =
      ((tree.flatten config.maxDepth).files.filter (·.path ≠ path)).map fun file =>
        outlineFrom parse config.scope file (answer file) :=
  filter_of_forall₂ hanswer (forall₂_outlines parse config fetcher tree state)

section

variable (policy : HealthPolicy) (paths : PathTable) {found : List Outline}

theorem others_map_ofOutline (found : List Outline) (path : String) :
    Graph.others (found.map (ResolvedOutline.ofOutline paths)) path =
      (found.filter (·.file ≠ path)).map (ResolvedOutline.ofOutline paths) := by
  rw [Graph.others, List.filter_map]
  rfl

variable (hplain : ∀ outline ∈ found, Path.Plain outline.file)
  (hclosed : ∀ outline ∈ found, outline.Closed) (path : String)

include hplain hclosed

theorem nodesApart_graphOf : (graphOf policy paths found).nodesApart path =
    (graphOf policy paths (found.filter (·.file ≠ path))).nodesApart path := by
  unfold graphOf
  rw [← others_map_ofOutline]
  exact Graph.nodesApart_assemble_others (List.forall_mem_map.2 hplain)
    (List.forall_mem_map.2 hclosed) path

theorem edgesApart_graphOf : (graphOf policy paths found).edgesApart path =
    (graphOf policy paths (found.filter (·.file ≠ path))).edges := by
  unfold graphOf
  rw [← others_map_ofOutline, Graph.edges_assemble]
  exact Graph.edgesApart_assemble (List.forall_mem_map.2 hplain)
    (List.forall_mem_map.2 hclosed) path

theorem apart_or_declared_graphOf : ∀ edge ∈ (graphOf policy paths found).edges,
    edge ∈ (graphOf policy paths found).edgesApart path ∨
      ∃ kind ≠ .package, (graphOf policy paths found).Declares edge.source kind path :=
  Graph.apart_or_declared_of_mem_edges (List.forall_mem_map.2 hplain)
    (List.forall_mem_map.2 hclosed) path

end

/-- What is fetched for a file changes nothing but its own node, its classes and functions, the
edges that leave these, and packages. -/
theorem run_isolated {σ τ : Type} (parse : Parse) (config : Config) (fetcher : Fetcher (StateM σ))
    (other : Fetcher (StateM τ)) (tree : FileTree) (state : σ) (start : τ) (path : String)
    (hpath : path ∈ (tree.flatten config.maxDepth).files.map (·.path))
    (hplain : ∀ file ∈ (tree.flatten config.maxDepth).files, Path.Plain file.path)
    (hsame : ∀ file : Entry, file.path ≠ path → ∀ state start,
      ((fetcher.fetch file).run state).1 = ((other.fetch file).run start).1)
    (htime : ∀ seconds,
      ((run parse config fetcher tree).run state).1 ≠ .error (.timedOut seconds))
    (htimeOther : ∀ seconds,
      ((run parse config other tree).run start).1 ≠ .error (.timedOut seconds)) :
    ∃ graph twin, ((run parse config fetcher tree).run state).1 = .ok graph ∧
      ((run parse config other tree).run start).1 = .ok twin ∧
      graph.nodesApart path = twin.nodesApart path ∧
      graph.edgesApart path = twin.edgesApart path ∧
      (∀ edge ∈ graph.edges, edge ∈ graph.edgesApart path ∨
        ∃ kind ≠ .package, graph.Declares edge.source kind path) ∧
      ∀ edge ∈ twin.edges, edge ∈ twin.edgesApart path ∨
        ∃ kind ≠ .package, twin.Declares edge.source kind path := by
  have hfiles : (tree.flatten config.maxDepth).files ≠ [] := by
    rintro hempty
    rw [hempty] at hpath
    cases hpath
  have hanswer : ∀ file : Entry, file.path ≠ path → ∀ state',
      ((fetcher.fetch file).run state').1 = ((other.fetch file).run start).1 :=
    fun file hne state' => hsame file hne state' start
  have hanswerOther : ∀ file : Entry, file.path ≠ path → ∀ start',
      ((other.fetch file).run start').1 = ((other.fetch file).run start).1 :=
    fun file hne start' => (hsame file hne state start').symm.trans (hsame file hne state start)
  have hothers := (filter_outlines parse config tree state hanswer).trans
    (filter_outlines parse config tree start hanswerOther).symm
  have hplainFirst := plain_outlines parse config fetcher tree state hplain
  have hplainSecond := plain_outlines parse config other tree start hplain
  have hclosedFirst := closed_outlines parse config fetcher tree state
  have hclosedSecond := closed_outlines parse config other tree start
  refine ⟨_, _, run_eq_ok hfiles htime, run_eq_ok hfiles htimeOther, ?_, ?_,
    apart_or_declared_graphOf _ _ hplainFirst hclosedFirst path,
    apart_or_declared_graphOf _ _ hplainSecond hclosedSecond path⟩
  · rw [nodesApart_graphOf _ _ hplainFirst hclosedFirst,
      nodesApart_graphOf _ _ hplainSecond hclosedSecond, hothers]
  · rw [edgesApart_graphOf _ _ hplainFirst hclosedFirst,
      edgesApart_graphOf _ _ hplainSecond hclosedSecond, hothers]

theorem run_sample_isolated : ∃ graph twin,
    ((run Sample.parse {} Sample.fetcher Sample.files).run 0).1 = .ok graph ∧
      ((run Sample.parse {} (Sample.failing "lib/b.js") Sample.files).run ()).1 = .ok twin ∧
      graph.nodesApart "lib/b.js" = twin.nodesApart "lib/b.js" ∧
      graph.edgesApart "lib/b.js" = twin.edgesApart "lib/b.js" := by
  have hpath : "lib/b.js" ∈ (Sample.files.flatten (some 3)).files.map (·.path) := by
    decide +kernel
  have hplain : ∀ file ∈ (Sample.files.flatten (some 3)).files, Path.Plain file.path := by
    decide +kernel
  have hsame : ∀ file : Entry, file.path ≠ "lib/b.js" → ∀ (count : Nat) (nothing : Unit),
      ((Sample.fetcher.fetch file).run count).1 =
        (((Sample.failing "lib/b.js").fetch file).run nothing).1 := by
    intro file hne count nothing
    change Except.ok Sample.source.toUTF8 = if file.path = "lib/b.js" then _ else _
    rw [if_neg hne]
  have htime : ∀ seconds, ((run Sample.parse {} Sample.fetcher Sample.files).run 0).1 ≠
      .error (.timedOut seconds) := run_ne_timedOut rfl
  have htimeFailing : ∀ seconds,
      ((run Sample.parse {} (Sample.failing "lib/b.js") Sample.files).run ()).1 ≠
        .error (.timedOut seconds) := run_ne_timedOut rfl
  obtain ⟨graph, twin, hrun, hrunFailing, hnodes, hedges, -⟩ :=
    run_isolated Sample.parse {} Sample.fetcher (Sample.failing "lib/b.js") Sample.files 0 ()
      "lib/b.js" hpath hplain hsame htime htimeFailing
  exact ⟨graph, twin, hrun, hrunFailing, hnodes, hedges⟩

end Analysis

end CodeGraph
