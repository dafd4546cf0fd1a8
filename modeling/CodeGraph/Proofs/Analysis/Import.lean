import CodeGraph.Proofs.Analysis.WellTyped

/-! Where import edges end. Specifiers, paths and the ids of classes and functions are one kind of
text, so an import that leads out of the tree ends at a package only if no file of the tree gives
the specifier to one of its nodes. -/
namespace CodeGraph

/-- Whether an id is that of a file, or of a class or a function of it. -/
def Outline.Names (outline : Outline) (id : String) : Prop :=
  id = outline.file ∨ (∃ type ∈ outline.types, id = Node.typeId outline.file type.name) ∨
    ∃ function ∈ outline.functions, id = Node.functionId outline.file function.name

theorem Resolution.eq_of_outside {paths : PathTable} {importer specifier rest : String}
    (h : ofSpecifier paths importer specifier = .outside rest) : rest = specifier :=
  (ofSpecifier_eq_outside_iff.1 h).1

namespace Graph

variable {files : List ResolvedOutline} {policy : HealthPolicy} {node : Node} {edge : Edge}

theorem exists_target_of_mem_edges (hedge : edge ∈ (assemble policy files).edges) :
    ∃ node ∈ (assemble policy files).nodes, node.id = edge.target := by
  rw [edges_assemble] at hedge
  have hids : edge.target ∈ (assemble policy files).ids := by
    rw [ids_assemble, gather, ids_ofParts, List.mem_eraseDups]
    exact List.mem_append_right _ (List.mem_flatMap.2 ⟨edge, hedge, by simp⟩)
  exact mem_ids.1 hids

theorem forall_nodes_id_ne_iff_not_names (file : ResolvedOutline) (id : String) :
    (∀ other ∈ file.nodes, other.id ≠ id) ↔ ¬ file.outline.Names id := by
  rw [forall_nodes_id_ne_iff, Outline.Names]
  push Not
  rfl

/-- The end of an edge is a package just if no file names it. -/
theorem package_iff_of_target (hedge : edge ∈ (assemble policy files).edges)
    (hnode : node ∈ (assemble policy files).nodes) (hid : node.id = edge.target) :
    node.kind = .package ↔ ∀ file ∈ files, ¬ file.outline.Names node.id := by
  rw [package_iff_of_mem hnode]
  simp only [forall_nodes_id_ne_iff_not_names]
  exact and_iff_right ⟨edge, hedge, .inr hid⟩

theorem exists_file_of_kind_eq_file (hnode : node ∈ (assemble policy files).nodes)
    (hkind : node.kind = .file) : ∃ file ∈ files, node.id = file.outline.file := by
  obtain ⟨base, hbase, rfl⟩ := mem_assemble.1 hnode
  rw [kind_finished] at hkind
  obtain ⟨file, hfile, hmem⟩ := exists_file_of_mem_gather hbase (by rw [hkind]; decide)
  rw [id_finished]
  rcases ResolvedOutline.mem_nodes.1 hmem with rfl | ⟨type, -, rfl⟩ | ⟨function, -, rfl⟩
  · exact ⟨file, hfile, rfl⟩
  · cases hkind
  · cases hkind

end Graph

namespace Analysis

section

variable {policy : HealthPolicy} {paths : PathTable} {found : List Outline} {outline : Outline}
  {specifier : String} {node : Node}

variable (policy paths) in
theorem mem_edges_of_mem_imports (houtline : outline ∈ found)
    (hspecifier : specifier ∈ outline.imports) :
    ⟨outline.file, (Resolution.ofSpecifier paths outline.file specifier).target, .imports⟩ ∈
      (graphOf policy paths found).edges := by
  unfold graphOf
  rw [Graph.edges_assemble, List.flatMap_map]
  refine List.mem_flatMap.2 ⟨outline, houtline, ?_⟩
  have himport : Resolution.ofSpecifier paths outline.file specifier ∈
      (ResolvedOutline.ofOutline paths outline).imports := List.mem_map_of_mem hspecifier
  exact List.mem_append_left _ (List.mem_append_left _ (List.mem_map_of_mem himport))

theorem package_iff_of_mem_imports (houtline : outline ∈ found)
    (hspecifier : specifier ∈ outline.imports)
    (hnode : node ∈ (graphOf policy paths found).nodes)
    (hid : node.id = (Resolution.ofSpecifier paths outline.file specifier).target) :
    node.kind = .package ↔ ∀ other ∈ found, ¬ other.Names node.id := by
  have hedge := mem_edges_of_mem_imports policy paths houtline hspecifier
  rw [Graph.package_iff_of_target hedge hnode hid, List.forall_mem_map]
  rfl

theorem exists_outline_of_kind_eq_file (hnode : node ∈ (graphOf policy paths found).nodes)
    (hkind : node.kind = .file) : node.id ∈ found.map (·.file) := by
  obtain ⟨file, hfile, hid⟩ := Graph.exists_file_of_kind_eq_file hnode hkind
  obtain ⟨outline, houtline, rfl⟩ := List.mem_map.1 hfile
  exact List.mem_map.2 ⟨outline, houtline, hid.symm⟩

end

/-- There is one import edge for each specifier. If the specifier leads out of the tree, the edge
ends at a package, unless a file of the tree gives this very id to one of its nodes. If the edge ends
at a file, the specifier leads to the path of the file, or it leads out of the tree and is this
path. -/
theorem run_imports {σ : Type} (parse : Parse) (config : Config) (fetcher : Fetcher (StateM σ))
    (tree : FileTree) (state : σ) {graph : Graph}
    (hrun : ((run parse config fetcher tree).run state).1 = .ok graph) :
    let flat := tree.flatten config.maxDepth
    let outlines := ((outlines parse config fetcher tree).run state).1
    (graph.edges.filter (·.relation = .imports) = outlines.flatMap fun outline =>
      outline.imports.map fun specifier =>
        ⟨outline.file, (Resolution.ofSpecifier flat.paths outline.file specifier).target,
          .imports⟩) ∧
    ∀ outline ∈ outlines, ∀ specifier ∈ outline.imports,
      let resolution := Resolution.ofSpecifier flat.paths outline.file specifier
      (∃ node ∈ graph.nodes, node.id = resolution.target) ∧
      ∀ node ∈ graph.nodes, node.id = resolution.target →
        (resolution = .outside specifier →
          (node.kind = .package ↔ ∀ other ∈ outlines, ¬ other.Names specifier)) ∧
        (node.kind = .file → resolution = .inside node.id ∨
          resolution = .outside specifier ∧ specifier = node.id ∧
            specifier ∈ flat.files.map (·.path)) := by
  dsimp only
  have hpaths := map_file_outlines parse config fetcher tree state
  have hclosed := closed_outlines parse config fetcher tree state
  rw [eq_graphOf_of_run hrun]
  refine ⟨imports_graphOf config.health _ hclosed, fun outline houtline specifier hspecifier =>
    ⟨?_, fun node hnode hid => ⟨fun houtside => ?_, fun hkind => ?_⟩⟩⟩
  · exact Graph.exists_target_of_mem_edges (mem_edges_of_mem_imports _ _ houtline hspecifier)
  · rw [package_iff_of_mem_imports houtline hspecifier hnode hid, hid, houtside]
    rfl
  · cases hresolution : Resolution.ofSpecifier (tree.flatten config.maxDepth).paths outline.file
        specifier with
    | inside path =>
      rw [hresolution] at hid
      exact .inl (congrArg Resolution.inside hid.symm)
    | outside rest =>
      rw [hresolution] at hid
      obtain rfl := Resolution.eq_of_outside hresolution
      refine .inr ⟨rfl, hid.symm, ?_⟩
      rw [← hpaths, ← show node.id = rest from hid]
      exact exists_outline_of_kind_eq_file hnode hkind

namespace Bare

def files : FileTree := [.file "a.js" 29, .file "b.js" 7]

def source : String := "import 'b.js'; import 'react'"

def syntaxTree : SyntaxTree :=
  .node "program" true ⟨0, 29⟩
    [(none, .node "import_statement" true ⟨0, 14⟩
      [(some "source", .node "string" true ⟨7, 13⟩ [])]),
    (none, .node "import_statement" true ⟨15, 29⟩
      [(some "source", .node "string" true ⟨22, 29⟩ [])])]

def parse (content : String) : Except ParseError ParsedSource :=
  if content = source then .ok ⟨default, syntaxTree⟩ else .error default

def fetcher : Fetcher (StateM Unit) where
  fetch file := pure (if file.path = "a.js" then .ok source.toUTF8 else .error ⟨"gone"⟩)
  elapsed := pure 0

def importer : Outline :=
  { Outline.opaqueFile "a.js" 1 (.parsed default) with imports := ["b.js", "react"] }

theorem outlines_eq : ((outlines parse {} fetcher files).run ()).1 =
    [importer, .opaqueFile "b.js" 0 .fetchFailed] := by
  decide +kernel

theorem run_ok : ((run parse {} fetcher files).run ()).1 =
    .ok (graphOf .first (files.flatten (some 3)).paths
      [importer, .opaqueFile "b.js" 0 .fetchFailed]) := by
  rw [run_eq_ok (by decide +kernel) (run_ne_timedOut rfl), outlines_eq]

end Bare

/-- An import that leads out of the tree and is no id of the tree ends at a package. -/
theorem run_bare_import_of_package : ∃ graph,
    ((run Bare.parse {} Bare.fetcher Bare.files).run ()).1 = .ok graph ∧
      ∃ node ∈ graph.nodes, node.id = "react" ∧ node.kind = .package := by
  obtain ⟨-, himports⟩ := run_imports Bare.parse {} Bare.fetcher Bare.files () Bare.run_ok
  rw [Bare.outlines_eq] at himports
  obtain ⟨⟨node, hnode, hid⟩, hnodes⟩ := himports Bare.importer (by decide) "react" (by decide)
  refine ⟨_, Bare.run_ok, node, hnode, hid, ((hnodes node hnode hid).1 rfl).2 ?_⟩
  unfold Outline.Names
  decide

/-- An import that leads out of the tree ends at a file of the tree if it is the path of the file. -/
theorem run_bare_import_of_file : ∃ graph,
    ((run Bare.parse {} Bare.fetcher Bare.files).run ()).1 = .ok graph ∧
      (∃ outline ∈ ((outlines Bare.parse {} Bare.fetcher Bare.files).run ()).1,
        outline.file = "a.js" ∧ "b.js" ∈ outline.imports) ∧
      Resolution.ofSpecifier (Bare.files.flatten (some 3)).paths "a.js" "b.js" = .outside "b.js" ∧
      ⟨"a.js", "b.js", .imports⟩ ∈ graph.edges ∧
      (∃ node ∈ graph.nodes, node.id = "b.js") ∧
      ∀ node ∈ graph.nodes, node.id = "b.js" → node.kind = .file := by
  have hplain : ∀ file ∈ [Bare.importer, .opaqueFile "b.js" 0 .fetchFailed].map
      (ResolvedOutline.ofOutline (Bare.files.flatten (some 3)).paths),
        Path.Plain file.outline.file := by
    refine List.forall_mem_map.2 ?_
    decide
  obtain ⟨node, hnode, hid, hkind, -⟩ := Graph.declares_assemble .first hplain
    (List.mem_map_of_mem (List.mem_cons_of_mem _ List.mem_cons_self))
    (ResolvedOutline.file_mem_nodes _)
  refine ⟨_, Bare.run_ok, ⟨Bare.importer, ?_, rfl, by decide⟩, rfl, ?_, ⟨node, hnode, hid⟩, ?_⟩
  · rw [Bare.outlines_eq]
    exact List.mem_cons_self
  · have himporter : Bare.importer ∈ [Bare.importer, .opaqueFile "b.js" 0 .fetchFailed] :=
      List.mem_cons_self
    have hspecifier : "b.js" ∈ Bare.importer.imports := by decide
    exact mem_edges_of_mem_imports _ _ himporter hspecifier
  · intro other hother hsame
    rw [Graph.eq_of_id_eq (Graph.nodup_ids_assemble _ _) hother hnode (hsame.trans hid.symm)]
    exact hkind

end Analysis

end CodeGraph
