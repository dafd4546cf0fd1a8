import CodeGraph.Proofs.Analysis.Ownership
import CodeGraph.Proofs.Analysis.Run
import CodeGraph.Proofs.Outline.Closed

/-! Graphs of trees are well typed: each edge joins nodes of the kinds that its relation asks for,
and packages are only imported. -/
namespace CodeGraph

namespace ResolvedOutline

variable {file : ResolvedOutline} {edge : Edge}

/-- The edges of a file: imports, inheritance between its classes and calls between different
functions of it. -/
theorem cases_of_mem_edges (hclosed : file.outline.Closed) (h : edge ∈ file.edges) :
    (∃ resolution ∈ file.imports, edge = ⟨file.outline.file, resolution.target, .imports⟩) ∨
      (∃ type ∈ file.outline.types, ∃ parent ∈ file.outline.types,
        edge = ⟨Node.typeId file.outline.file type.name, Node.typeId file.outline.file parent.name,
          .inherits⟩) ∨
      ∃ caller ∈ file.outline.functions, ∃ callee ∈ file.outline.functions,
        caller.name ≠ callee.name ∧
        edge = ⟨Node.functionId file.outline.file caller.name,
          Node.functionId file.outline.file callee.name, .calls⟩ := by
  simp only [edges, List.mem_append, List.mem_map] at h
  rcases h with (⟨resolution, hresolution, rfl⟩ | hinherits) | hcalls
  · exact .inl ⟨resolution, hresolution, rfl⟩
  · exact .inr (.inl (hclosed.inheritance edge hinherits))
  · exact .inr (.inr (hclosed.calls edge hcalls))

theorem file_mem_nodes (file : ResolvedOutline) :
    .file file.outline.file (Path.fileName file.outline.file) file.outline.lines ∈ file.nodes :=
  mem_nodes.2 (.inl rfl)

theorem type_mem_nodes {type : TypeOutline} (h : type ∈ file.outline.types) :
    .type file.outline.file type.name type.methods ∈ file.nodes :=
  mem_nodes.2 (.inr (.inl ⟨type, h, rfl⟩))

theorem function_mem_nodes {function : FunctionOutline} (h : function ∈ file.outline.functions) :
    .function file.outline.file function.name function.complexity ∈ file.nodes :=
  mem_nodes.2 (.inr (.inr ⟨function, h, rfl⟩))

/-- An edge leaves a node of its own file, and enters one unless it is an import. -/
theorem ends_mem_ids (hclosed : file.outline.Closed) (h : edge ∈ file.edges) :
    edge.source ∈ file.nodes.map (·.id) ∧
      (edge.relation = .imports ∨ edge.target ∈ file.nodes.map (·.id)) := by
  rcases cases_of_mem_edges hclosed h with ⟨resolution, -, rfl⟩ |
    ⟨type, htype, parent, hparent, rfl⟩ | ⟨caller, hcaller, callee, hcallee, -, rfl⟩
  · exact ⟨List.mem_map_of_mem file.file_mem_nodes, .inl rfl⟩
  · exact ⟨List.mem_map_of_mem (type_mem_nodes htype),
      .inr (List.mem_map_of_mem (type_mem_nodes hparent))⟩
  · exact ⟨List.mem_map_of_mem (function_mem_nodes hcaller),
      .inr (List.mem_map_of_mem (function_mem_nodes hcallee))⟩

theorem imports_of_edges (hclosed : file.outline.Closed) :
    file.edges.filter (·.relation = .imports) =
      file.imports.map fun resolution => ⟨file.outline.file, resolution.target, .imports⟩ := by
  have hinherits : file.outline.inheritance.filter (·.relation = .imports) = [] := by
    refine List.filter_eq_nil_iff.2 fun edge hedge => ?_
    obtain ⟨type, -, parent, -, rfl⟩ := hclosed.inheritance edge hedge
    simp
  have hcalls : file.outline.calls.filter (·.relation = .imports) = [] := by
    refine List.filter_eq_nil_iff.2 fun edge hedge => ?_
    obtain ⟨caller, -, callee, -, -, rfl⟩ := hclosed.calls edge hedge
    simp
  rw [edges, List.filter_append, List.filter_append, hinherits, hcalls]
  simp [List.filter_map, Function.comp_def]

end ResolvedOutline

namespace Graph

/-- Each path is the id of exactly one node, a file, and files of these paths own all classes and
functions. Calls and inheritance stay inside a file, imports leave files, and packages are imported
and do nothing themselves. -/
structure WellTyped (graph : Graph) (paths : List String) : Prop where
  nodup : graph.ids.Nodup
  files : ∀ path ∈ paths, graph.ids.count path = 1 ∧ graph.Declares path .file path
  owners : ∀ node ∈ graph.nodes, node.kind = .type ∨ node.kind = .function → node.owner ∈ paths
  complexities : ∀ node ∈ graph.nodes, node.kind = .function → 1 ≤ node.complexity
  calls : ∀ edge ∈ graph.edges, edge.relation = .calls → edge.source ≠ edge.target ∧
    ∃ owner, graph.Declares edge.source .function owner ∧ graph.Declares edge.target .function owner
  inheritance : ∀ edge ∈ graph.edges, edge.relation = .inherits →
    ∃ owner, graph.Declares edge.source .type owner ∧ graph.Declares edge.target .type owner
  imports : ∀ edge ∈ graph.edges, edge.relation = .imports →
    edge.source ∈ paths ∧ graph.Declares edge.source .file edge.source
  packages : ∀ node ∈ graph.nodes, node.kind = .package →
    (∃ edge ∈ graph.edges, edge.relation = .imports ∧ edge.target = node.id) ∧
      ∀ edge ∈ graph.edges, edge.source ≠ node.id

variable {files : List ResolvedOutline} {policy : HealthPolicy} {node : Node} {edge : Edge}

theorem exists_file_of_mem_assemble (hnode : node ∈ (assemble policy files).nodes)
    (hkind : node.kind ≠ .package) : ∃ file ∈ files, node.owner = file.outline.file := by
  obtain ⟨base, hbase, rfl⟩ := mem_assemble.1 hnode
  rw [kind_finished] at hkind
  obtain ⟨file, hfile, hmem⟩ := exists_file_of_mem_gather hbase hkind
  exact ⟨file, hfile, by rw [owner_finished, ResolvedOutline.owner_of_mem hmem]⟩

theorem exists_function_of_mem_assemble (hnode : node ∈ (assemble policy files).nodes)
    (hkind : node.kind = .function) : ∃ file ∈ files, ∃ function ∈ file.outline.functions,
      node.complexity = function.complexity := by
  have hbase := mem_gather_of_ne_file hnode (by rw [hkind]; decide)
  obtain ⟨file, hfile, hmem⟩ := exists_file_of_mem_gather hbase (by rw [hkind]; decide)
  rcases ResolvedOutline.mem_nodes.1 hmem with rfl | ⟨type, -, rfl⟩ | ⟨function, hfunction, rfl⟩
  · cases hkind
  · cases hkind
  · exact ⟨file, hfile, function, hfunction, rfl⟩

theorem exists_file_of_mem_edges (hedge : edge ∈ (assemble policy files).edges) :
    ∃ file ∈ files, edge ∈ file.edges := by
  rw [edges_assemble] at hedge
  exact List.mem_flatMap.1 hedge

/-- No file has the id of a package, so only imports lead to it. -/
theorem imported_of_package (hclosed : ∀ file ∈ files, file.outline.Closed)
    (hnode : node ∈ (assemble policy files).nodes) (hkind : node.kind = .package) :
    (∃ edge ∈ (assemble policy files).edges, edge.relation = .imports ∧ edge.target = node.id) ∧
      ∀ edge ∈ (assemble policy files).edges, edge.source ≠ node.id := by
  obtain ⟨⟨edge, hedge, hend⟩, hnew⟩ := (package_iff_of_mem hnode).1 hkind
  have hforeign : ∀ file ∈ files, node.id ∉ file.nodes.map (·.id) := by
    intro file hfile hmem
    obtain ⟨other, hother, hid⟩ := List.mem_map.1 hmem
    exact hnew file hfile other hother hid
  have hsource : ∀ edge ∈ (assemble policy files).edges, edge.source ≠ node.id := by
    intro edge hedge hid
    obtain ⟨file, hfile, hmem⟩ := exists_file_of_mem_edges hedge
    exact hforeign file hfile (hid ▸ (ResolvedOutline.ends_mem_ids (hclosed file hfile) hmem).1)
  have htarget := hend.resolve_left (hsource edge hedge).symm
  obtain ⟨file, hfile, hmem⟩ := exists_file_of_mem_edges hedge
  have hrelation := (ResolvedOutline.ends_mem_ids (hclosed file hfile) hmem).2.resolve_right
    fun hown => hforeign file hfile (htarget ▸ hown)
  exact ⟨⟨edge, hedge, hrelation, htarget.symm⟩, hsource⟩

theorem wellTyped_assemble (hplain : ∀ file ∈ files, Path.Plain file.outline.file)
    (hclosed : ∀ file ∈ files, file.outline.Closed)
    (hcomplexity : ∀ file ∈ files, ∀ function ∈ file.outline.functions, 1 ≤ function.complexity) :
    (assemble policy files).WellTyped (files.map (·.outline.file)) where
  nodup := nodup_ids_assemble policy files
  files := by
    intro path hpath
    obtain ⟨file, hfile, rfl⟩ := List.mem_map.1 hpath
    have hfound : (assemble policy files).Declares file.outline.file .file file.outline.file :=
      declares_assemble policy hplain hfile file.file_mem_nodes
    have hmem : file.outline.file ∈ (assemble policy files).ids := by
      obtain ⟨node, hnode, hid, -⟩ := hfound
      exact mem_ids.2 ⟨node, hnode, hid⟩
    exact ⟨List.count_eq_one_of_mem (nodup_ids_assemble policy files) hmem, hfound⟩
  owners := by
    intro node hnode hkind
    have hdeclared : node.kind ≠ .package := by
      rcases hkind with hkind | hkind <;> rw [hkind] <;> decide
    obtain ⟨file, hfile, howner⟩ := exists_file_of_mem_assemble hnode hdeclared
    exact List.mem_map.2 ⟨file, hfile, howner.symm⟩
  complexities := by
    intro node hnode hkind
    obtain ⟨file, hfile, function, hfunction, heq⟩ := exists_function_of_mem_assemble hnode hkind
    rw [heq]
    exact hcomplexity file hfile function hfunction
  calls := by
    intro edge hedge hrelation
    obtain ⟨file, hfile, hmem⟩ := exists_file_of_mem_edges hedge
    rcases ResolvedOutline.cases_of_mem_edges (hclosed file hfile) hmem with ⟨_, _, rfl⟩ |
      ⟨_, _, _, _, rfl⟩ | ⟨caller, hcaller, callee, hcallee, hne, rfl⟩
    · cases hrelation
    · cases hrelation
    · refine ⟨fun hid => ?_, file.outline.file, ?_, ?_⟩
      · exact hne ((Node.functionId_inj (hplain file hfile) (hplain file hfile)).1 hid).2
      · exact declares_assemble policy hplain hfile (ResolvedOutline.function_mem_nodes hcaller)
      · exact declares_assemble policy hplain hfile (ResolvedOutline.function_mem_nodes hcallee)
  inheritance := by
    intro edge hedge hrelation
    obtain ⟨file, hfile, hmem⟩ := exists_file_of_mem_edges hedge
    rcases ResolvedOutline.cases_of_mem_edges (hclosed file hfile) hmem with ⟨_, _, rfl⟩ |
      ⟨type, htype, parent, hparent, rfl⟩ | ⟨_, _, _, _, _, rfl⟩
    · cases hrelation
    · refine ⟨file.outline.file, ?_, ?_⟩
      · exact declares_assemble policy hplain hfile (ResolvedOutline.type_mem_nodes htype)
      · exact declares_assemble policy hplain hfile (ResolvedOutline.type_mem_nodes hparent)
    · cases hrelation
  imports := by
    intro edge hedge hrelation
    obtain ⟨file, hfile, hmem⟩ := exists_file_of_mem_edges hedge
    rcases ResolvedOutline.cases_of_mem_edges (hclosed file hfile) hmem with ⟨_, _, rfl⟩ |
      ⟨_, _, _, _, rfl⟩ | ⟨_, _, _, _, _, rfl⟩
    · exact ⟨List.mem_map_of_mem hfile, declares_assemble policy hplain hfile file.file_mem_nodes⟩
    · cases hrelation
    · cases hrelation
  packages := fun node hnode hkind => imported_of_package hclosed hnode hkind

end Graph

namespace Analysis

variable {parse : Parse} {scope : ComplexityScope}

theorem closed_outlineFrom (parse : Parse) (scope : ComplexityScope) (file : Entry)
    (answer : Except FetchError ByteArray) : (outlineFrom parse scope file answer).Closed := by
  rcases outlineFrom_cases parse scope file answer with ⟨lines, status, h⟩ | ⟨_, _, -, h⟩
  · rw [h]
    exact Outline.closed_opaqueFile _ _ _
  · rw [h]
    exact Outline.closed_ofParsed _ _ _ _

theorem one_le_complexity_outlineFrom
    (hdecisions : ∀ content parsed, parse content = .ok parsed →
      ∀ function ∈ parsed.tree.preorder, (Construct.of function).isFunction →
        function.decisions scope < 2 ^ 32 - 1)
    (file : Entry) (answer : Except FetchError ByteArray) :
    ∀ function ∈ (outlineFrom parse scope file answer).functions, 1 ≤ function.complexity := by
  rcases outlineFrom_cases parse scope file answer with ⟨lines, status, h⟩ |
    ⟨content, parsed, hparse, h⟩
  · rw [h]
    exact nofun
  · rw [h]
    intro outline houtline
    obtain ⟨function, hmem, hfunction, heq⟩ := Outline.function_of_mem_functions houtline
    rw [heq]
    exact SyntaxTree.one_le_complexity scope
      (hdecisions content parsed hparse function hmem hfunction)

section

variable (policy : HealthPolicy) (paths : PathTable) {found : List Outline}

theorem wellTyped_graphOf (hplain : ∀ outline ∈ found, Path.Plain outline.file)
    (hclosed : ∀ outline ∈ found, outline.Closed)
    (hcomplexity : ∀ outline ∈ found, ∀ function ∈ outline.functions, 1 ≤ function.complexity) :
    (graphOf policy paths found).WellTyped (found.map (·.file)) := by
  have hpaths : (found.map (ResolvedOutline.ofOutline paths)).map (·.outline.file) =
      found.map (·.file) := List.map_map
  rw [← hpaths]
  apply Graph.wellTyped_assemble <;> intro file hfile <;>
    obtain ⟨outline, houtline, rfl⟩ := List.mem_map.1 hfile
  · exact hplain outline houtline
  · exact hclosed outline houtline
  · exact hcomplexity outline houtline

theorem imports_graphOf (hclosed : ∀ outline ∈ found, outline.Closed) :
    (graphOf policy paths found).edges.filter (·.relation = .imports) =
      found.flatMap fun outline => outline.imports.map fun specifier =>
        ⟨outline.file, (Resolution.ofSpecifier paths outline.file specifier).target, .imports⟩ := by
  unfold graphOf
  rw [Graph.edges_assemble, List.filter_flatMap, List.flatMap_map]
  refine List.flatMap_congr fun outline houtline => ?_
  rw [ResolvedOutline.imports_of_edges (hclosed outline houtline)]
  exact List.map_map

end

section

variable {σ : Type} (parse : Parse) (config : Config) (fetcher : Fetcher (StateM σ))
  (tree : FileTree) (state : σ)

theorem plain_outlines (h : ∀ file ∈ (tree.flatten config.maxDepth).files, Path.Plain file.path) :
    ∀ outline ∈ ((outlines parse config fetcher tree).run state).1, Path.Plain outline.file := by
  intro outline houtline
  obtain ⟨file, hfile, answer, hfrom⟩ :=
    exists_file_of_mem_outlines parse config fetcher tree state outline houtline
  rw [hfrom, file_outlineFrom]
  exact h file hfile

theorem closed_outlines :
    ∀ outline ∈ ((outlines parse config fetcher tree).run state).1, outline.Closed := by
  intro outline houtline
  obtain ⟨file, -, answer, hfrom⟩ :=
    exists_file_of_mem_outlines parse config fetcher tree state outline houtline
  rw [hfrom]
  exact closed_outlineFrom parse config.scope file answer

theorem one_le_complexity_outlines
    (h : ∀ content parsed, parse content = .ok parsed →
      ∀ function ∈ parsed.tree.preorder, (Construct.of function).isFunction →
        function.decisions config.scope < 2 ^ 32 - 1) :
    ∀ outline ∈ ((outlines parse config fetcher tree).run state).1,
      ∀ function ∈ outline.functions, 1 ≤ function.complexity := by
  intro outline houtline
  obtain ⟨file, -, answer, hfrom⟩ :=
    exists_file_of_mem_outlines parse config fetcher tree state outline houtline
  rw [hfrom]
  exact one_le_complexity_outlineFrom h file answer

end

/-- The graph of a tree with plain paths is well typed. Its imports are those of the outlines in
order, and one that leads to a file of the tree ends at the node of that file. -/
theorem run_wellTyped {σ : Type} (parse : Parse) (config : Config) (fetcher : Fetcher (StateM σ))
    (tree : FileTree) (state : σ) {graph : Graph}
    (hplain : ∀ file ∈ (tree.flatten config.maxDepth).files, Path.Plain file.path)
    (hdecisions : ∀ content parsed, parse content = .ok parsed →
      ∀ function ∈ parsed.tree.preorder, (Construct.of function).isFunction →
        function.decisions config.scope < 2 ^ 32 - 1)
    (hrun : ((run parse config fetcher tree).run state).1 = .ok graph) :
    let flat := tree.flatten config.maxDepth
    let outlines := ((outlines parse config fetcher tree).run state).1
    graph.WellTyped (flat.files.map (·.path)) ∧
      (graph.edges.filter (·.relation = .imports) = outlines.flatMap fun outline =>
        outline.imports.map fun specifier =>
          ⟨outline.file, (Resolution.ofSpecifier flat.paths outline.file specifier).target,
            .imports⟩) ∧
      ∀ outline ∈ outlines, ∀ specifier ∈ outline.imports, ∀ path,
        Resolution.ofSpecifier flat.paths outline.file specifier = .inside path →
          ⟨outline.file, path, .imports⟩ ∈ graph.edges ∧ graph.Declares path .file path := by
  dsimp only
  have hpaths := map_file_outlines parse config fetcher tree state
  have hplain := plain_outlines parse config fetcher tree state hplain
  have hclosed := closed_outlines parse config fetcher tree state
  have hcomplexity := one_le_complexity_outlines parse config fetcher tree state hdecisions
  rw [eq_graphOf_of_run hrun]
  have htyped := wellTyped_graphOf config.health (tree.flatten config.maxDepth).paths hplain hclosed
    hcomplexity
  have himports := imports_graphOf config.health (tree.flatten config.maxDepth).paths hclosed
  rw [hpaths] at htyped
  refine ⟨htyped, himports, fun outline houtline specifier hspecifier path hinside => ⟨?_, ?_⟩⟩
  · suffices hmem : ⟨outline.file, path, .imports⟩ ∈
        (graphOf config.health (tree.flatten config.maxDepth).paths
          ((outlines parse config fetcher tree).run state).1).edges.filter
            (·.relation = .imports) from List.mem_of_mem_filter hmem
    rw [himports]
    refine List.mem_flatMap.2 ⟨outline, houtline, List.mem_map.2 ⟨specifier, hspecifier, ?_⟩⟩
    rw [hinside]
    rfl
  · have hpath : path ∈ (tree.flatten config.maxDepth).files.map (·.path) :=
      PathTable.contains_ofList.1 (Resolution.contains_of_inside hinside)
    exact (htyped.files path hpath).2

theorem run_sample_wellTyped : ∃ graph,
    ((run Sample.parse {} Sample.fetcher Sample.files).run 0).1 = .ok graph ∧
      graph.WellTyped ["lib/a.js", "lib/b.js"] := by
  have hplain : ∀ file ∈ (Sample.files.flatten (some 3)).files, Path.Plain file.path := by
    decide +kernel
  have hdecisions : ∀ content parsed, Sample.parse content = .ok parsed →
      ∀ function ∈ parsed.tree.preorder, (Construct.of function).isFunction →
        function.decisions .inclusive < 2 ^ 32 - 1 := by
    intro content parsed hparse
    unfold Sample.parse at hparse
    split_ifs at hparse
    rw [← Except.ok.inj hparse]
    decide +kernel
  have hrun : ((run Sample.parse {} Sample.fetcher Sample.files).run 0).1 =
      .ok (graphOf .first (Sample.files.flatten (some 3)).paths
        ((outlines Sample.parse {} Sample.fetcher Sample.files).run 0).1) :=
    run_eq_ok (by decide +kernel) (run_ne_timedOut rfl)
  have hpaths : (Sample.files.flatten (some 3)).files.map (·.path) = ["lib/a.js", "lib/b.js"] := by
    decide +kernel
  obtain ⟨htyped, -⟩ :=
    run_wellTyped Sample.parse {} Sample.fetcher Sample.files 0 hplain hdecisions hrun
  exact ⟨_, hrun, hpaths ▸ htyped⟩

end Analysis

end CodeGraph
