import CodeGraph.Proofs.Analysis.Isolation

/-! Files that are no scripts, cannot be fetched or cannot be read never make an analysis fail. They
stand in the graph with a number of lines and nothing else. -/
namespace CodeGraph

/-- A fetcher that keeps a record of what it is asked for and of its answers. -/
def Fetcher.recorded {σ : Type} (fetcher : Fetcher (StateM σ)) :
    Fetcher (StateM (σ × List (Entry × Except FetchError ByteArray))) where
  fetch file := fun state =>
    let answer := (fetcher.fetch file).run state.1
    (answer.1, answer.2, state.2 ++ [(file, answer.1)])
  elapsed := fun state =>
    let seconds := fetcher.elapsed.run state.1
    (seconds.1, seconds.2, state.2)
  waits := fetcher.waits

namespace Graph

/-- A path whose node is a file of some lines without complexity. No edge leaves it, and it owns no
class and no function. -/
structure ShowsOpaque (graph : Graph) (path : String) (lines : UInt64) : Prop where
  mem : path ∈ graph.ids
  node : ∀ node ∈ graph.nodes, node.id = path →
    node.kind = .file ∧ node.complexity = 0 ∧ node.lines = lines
  edges : ∀ edge ∈ graph.edges, edge.source ≠ path
  owned : ∀ node ∈ graph.nodes, node.owner = path → node.kind ≠ .type ∧ node.kind ≠ .function

section

variable {files : List ResolvedOutline} {file : ResolvedOutline} {path label : String}
  {lines : UInt64} {node : Node}

variable (hpaths : (files.map (·.outline.file)).Nodup) (hfile : file ∈ files)
  (hnodes : file.nodes = [.file path label lines])

include hpaths hfile hnodes

theorem eq_of_file_eq {other : ResolvedOutline} (hother : other ∈ files)
    (h : other.outline.file = path) : other = file := by
  have hpath : file.outline.file = path := by
    have hmem := file.file_mem_nodes
    rw [hnodes, List.mem_singleton] at hmem
    exact congrArg Node.id hmem
  exact List.inj_on_of_nodup_map hpaths hother hfile (h.trans hpath.symm)

theorem eq_of_owner_eq (hnode : node ∈ (gather files).nodes) (hkind : node.kind ≠ .package)
    (howner : node.owner = path) : node = .file path label lines := by
  obtain ⟨other, hother, hmem⟩ := exists_file_of_mem_gather hnode hkind
  have hsame := eq_of_file_eq hpaths hfile hnodes hother
    ((ResolvedOutline.owner_of_mem hmem).symm.trans howner)
  rw [hsame, hnodes] at hmem
  exact List.mem_singleton.1 hmem

theorem ownedComplexity_eq_zero : (gather files).ownedComplexity path = 0 := by
  have hnone : (gather files).nodes.filter (fun node => node.kind = .function ∧ node.owner = path) =
      [] := by
    refine List.filter_eq_nil_iff.2 fun node hnode => ?_
    rw [decide_eq_true_iff]
    rintro ⟨hkind, howner⟩
    have hsame := eq_of_owner_eq hpaths hfile hnodes hnode (by rw [hkind]; decide) howner
    rw [hsame] at hkind
    cases hkind
  unfold ownedComplexity
  rw [hnone]
  rfl

/-- A file without classes, functions and edges shows its lines only. -/
theorem showsOpaque_assemble (policy : HealthPolicy)
    (hplain : ∀ file ∈ files, Path.Plain file.outline.file)
    (hclosed : ∀ file ∈ files, file.outline.Closed) (hedges : file.edges = []) :
    (assemble policy files).ShowsOpaque path lines := by
  have hmem : Node.file path label lines ∈ file.nodes := hnodes ▸ List.mem_singleton_self _
  obtain ⟨node, hnode, hid, hkind, howner⟩ := declares_assemble policy hplain hfile hmem
  change node.kind = .file at hkind
  have honly : ∀ other ∈ (assemble policy files).nodes, other.id = path → other = node :=
    fun other hother hsame =>
      eq_of_id_eq (nodup_ids_assemble policy files) hother hnode (hsame.trans hid.symm)
  refine ⟨mem_ids.2 ⟨node, hnode, hid⟩, fun other hother hsame => ?_, fun edge hedge hsource => ?_,
    fun other hother hsame => ?_⟩
  · rw [honly other hother hsame]
    obtain ⟨base, hbase, rfl⟩ := mem_assemble.1 hnode
    rw [kind_finished] at hkind
    rw [owner_finished] at howner
    have hsame := eq_of_owner_eq hpaths hfile hnodes hbase (by rw [hkind]; decide) howner
    refine ⟨(kind_finished _ policy base).trans hkind, ?_, ?_⟩
    · rw [finished_of_file policy hkind, hsame]
      dsimp only
      rw [show (Node.file path label lines).id = path from rfl,
        ownedComplexity_eq_zero hpaths hfile hnodes]
      rfl
    · rw [finished_of_file policy hkind, hsame]
      rfl
  · obtain ⟨other, hother, hmem⟩ := exists_file_of_mem_edges hedge
    obtain ⟨source, hin, hsourceId, -, hsourceOwner⟩ :=
      exists_source_of_mem_edges policy hplain (hclosed other hother) hother hmem
    -- the edge leaves the only node of the path, so it is an edge of the file itself
    rw [honly source hin (hsourceId.trans hsource), howner] at hsourceOwner
    rw [eq_of_file_eq hpaths hfile hnodes hother hsourceOwner.symm, hedges] at hmem
    exact List.not_mem_nil hmem
  · by_contra hsymbol
    have hsymbol : other.kind = .type ∨ other.kind = .function := by tauto
    have hne : other.kind ≠ .file := by rcases hsymbol with h | h <;> rw [h] <;> decide
    have hbase := mem_gather_of_ne_file hother hne
    have hpackage : other.kind ≠ .package := by rcases hsymbol with h | h <;> rw [h] <;> decide
    rw [eq_of_owner_eq hpaths hfile hnodes hbase hpackage hsame] at hne
    exact hne rfl

end

end Graph

namespace Analysis

variable {σ : Type}

section

variable (parse : Parse) (scope : ComplexityScope) (fetcher : Fetcher (StateM σ))

theorem run_outlineOf_recorded (file : Entry) (state : σ)
    (record : List (Entry × Except FetchError ByteArray)) :
    ∃ more, (outlineOf parse scope fetcher.recorded file).run (state, record) =
        (((outlineOf parse scope fetcher file).run state).1,
          ((outlineOf parse scope fetcher file).run state).2, record ++ more) ∧
      more.map (·.1) = [file].filter (·.hasScriptName) ∧
      ∀ request ∈ more, outlineFrom parse scope request.1 request.2 =
        ((outlineOf parse scope fetcher file).run state).1 := by
  by_cases hscript : file.hasScriptName = true
  · refine ⟨[(file, ((fetcher.fetch file).run state).1)], ?_, ?_, ?_⟩
    · unfold outlineOf
      rw [if_pos hscript, if_pos hscript]
      rfl
    · rw [List.filter_cons_of_pos hscript]
      rfl
    · intro request hrequest
      rw [List.mem_singleton.1 hrequest, run_outlineOf]
  · refine ⟨[], ?_, ?_, ?_⟩
    · unfold outlineOf
      rw [if_neg hscript, if_neg hscript, List.append_nil]
      rfl
    · rw [List.filter_cons_of_neg hscript]
      rfl
    · exact fun request hrequest => absurd hrequest List.not_mem_nil

/-- Recording changes nothing but the record, and in this stands each script once. -/
theorem run_mapM_recorded (files : List Entry) (state : σ)
    (record : List (Entry × Except FetchError ByteArray)) :
    ∃ more, (files.mapM (outlineOf parse scope fetcher.recorded)).run (state, record) =
        (((files.mapM (outlineOf parse scope fetcher)).run state).1,
          ((files.mapM (outlineOf parse scope fetcher)).run state).2, record ++ more) ∧
      more.map (·.1) = files.filter (·.hasScriptName) ∧
      ∀ request ∈ more, outlineFrom parse scope request.1 request.2 ∈
        ((files.mapM (outlineOf parse scope fetcher)).run state).1 := by
  induction files generalizing state record with
  | nil => exact ⟨[], by rw [List.append_nil]; rfl, rfl, fun _ h => absurd h List.not_mem_nil⟩
  | cons file rest ih =>
    obtain ⟨more, hrun, hasked, hfrom⟩ :=
      run_outlineOf_recorded parse scope fetcher file state record
    obtain ⟨others, hrunRest, haskedRest, hfromRest⟩ :=
      ih ((outlineOf parse scope fetcher file).run state).2 (record ++ more)
    rw [Action.run_mapM_cons, Action.run_mapM_cons, hrun]
    dsimp only
    rw [hrunRest, List.append_assoc]
    refine ⟨more ++ others, rfl, ?_, fun request hrequest => ?_⟩
    · rw [List.map_append, hasked, haskedRest, ← List.filter_append, List.singleton_append]
    · rcases List.mem_append.1 hrequest with hrequest | hrequest
      · rw [hfrom request hrequest]
        exact List.mem_cons_self
      · exact List.mem_cons_of_mem _ (hfromRest request hrequest)

variable (config : Config) (tree : FileTree) (state : σ)

theorem run_overrun?_recorded (found : List Outline)
    (record : List (Entry × Except FetchError ByteArray)) :
    (overrun? config fetcher.recorded found).run (state, record) =
      (((overrun? config fetcher found).run state).1,
        ((overrun? config fetcher found).run state).2, record) := by
  have hwaits : fetcher.recorded.waits = fetcher.waits := rfl
  unfold overrun?
  rw [hwaits]
  split_ifs <;> rfl

theorem run_snd : ((run parse config fetcher tree).run state).2 =
    let done := (outlines parse config fetcher tree).run state
    ((overrun? config fetcher done.1).run done.2).2 := by
  unfold run outlines
  dsimp only
  split_ifs with hempty
  · rw [List.isEmpty_iff.1 hempty]
    rfl
  · rw [Action.snd_run_bind, Action.snd_run_bind]
    generalize ((tree.flatten config.maxDepth).files.mapM
      (outlineOf parse config.scope fetcher)).run state = done
    cases ((overrun? config fetcher done.1).run done.2).1 <;> rfl

/-- A run that is recorded is the same run. -/
theorem run_recorded : ∃ record,
    (run parse config fetcher.recorded tree).run (state, []) =
      (((run parse config fetcher tree).run state).1,
        ((run parse config fetcher tree).run state).2, record) ∧
    record.map (·.1) = (tree.flatten config.maxDepth).files.filter (·.hasScriptName) ∧
    ∀ request ∈ record, outlineFrom parse config.scope request.1 request.2 ∈
      ((outlines parse config fetcher tree).run state).1 := by
  obtain ⟨record, hrun, hasked, hfrom⟩ :=
    run_mapM_recorded parse config.scope fetcher (tree.flatten config.maxDepth).files state []
  change (outlines parse config fetcher.recorded tree).run (state, []) = _ at hrun
  have hlate : late? parse config fetcher.recorded tree (state, []) =
      late? parse config fetcher tree state := by
    rw [late?, hrun]
    exact congrArg (·.1) (run_overrun?_recorded fetcher config _ _ _)
  refine ⟨record, Prod.ext ?_ ?_, hasked, hfrom⟩
  · rw [run_eq, run_eq, hrun, hlate]
    rfl
  · rw [run_snd, run_snd, hrun]
    exact congrArg (·.2) (run_overrun?_recorded fetcher config _ _ _)

end

section

variable {parse : Parse} {config : Config} {fetcher : Fetcher (StateM σ)} {tree : FileTree}
  {state : σ} {graph : Graph} {path : String} {lines : UInt64} {status : OutlineStatus}

theorem showsOpaque_of_run (hrun : ((run parse config fetcher tree).run state).1 = .ok graph)
    (hpaths : ((tree.flatten config.maxDepth).files.map (·.path)).Nodup)
    (hplain : ∀ file ∈ (tree.flatten config.maxDepth).files, Path.Plain file.path)
    (houtline : .opaqueFile path lines status ∈
      ((outlines parse config fetcher tree).run state).1) : graph.ShowsOpaque path lines := by
  have hplainFound := plain_outlines parse config fetcher tree state hplain
  have hclosed := closed_outlines parse config fetcher tree state
  rw [← map_file_outlines parse config fetcher tree state] at hpaths
  rw [eq_graphOf_of_run hrun]
  generalize ((outlines parse config fetcher tree).run state).1 = found at *
  have hmem := List.mem_map_of_mem
    (f := ResolvedOutline.ofOutline (tree.flatten config.maxDepth).paths) houtline
  exact Graph.showsOpaque_assemble (by rwa [List.map_map]) hmem rfl config.health
    (List.forall_mem_map.2 hplainFound) (List.forall_mem_map.2 hclosed) rfl

theorem opaqueFile_mem_outlines {file : Entry} (hfile : file ∈ (tree.flatten config.maxDepth).files)
    (hscript : ¬ file.hasScriptName) : .opaqueFile file.path file.size .notScript ∈
      ((outlines parse config fetcher tree).run state).1 := by
  obtain ⟨hlength, hfrom⟩ :=
    List.forall₂_iff_get.1 (forall₂_outlines parse config fetcher tree state)
  obtain ⟨position, rfl⟩ := List.get_of_mem hfile
  obtain ⟨_, houtline⟩ := hfrom position position.2 (hlength ▸ position.2)
  rw [outlineFrom, if_neg hscript] at houtline
  rw [← houtline]
  exact List.get_mem _ _

end

/-- An analysis fails for a tree without files only. It asks for the scripts of the tree, for each
of them as often as it occurs. Where paths tell the files apart, a file that is no script, cannot be
fetched or cannot be read stands in the graph with its number of lines and nothing else. -/
theorem run_degrades {σ : Type} (parse : Parse) (config : Config) (fetcher : Fetcher (StateM σ))
    (tree : FileTree) (state : σ)
    (htime : ∀ seconds,
      ((run parse config fetcher tree).run state).1 ≠ .error (.timedOut seconds)) :
    let files := (tree.flatten config.maxDepth).files
    let result := ((run parse config fetcher tree).run state).1
    let recorded := (run parse config fetcher.recorded tree).run (state, [])
    (result = .error .emptyTree ↔ files = []) ∧ (files ≠ [] → ∃ graph, result = .ok graph) ∧
      recorded.1 = result ∧ recorded.2.1 = ((run parse config fetcher tree).run state).2 ∧
      recorded.2.2.map (·.1) = files.filter (fun file =>
        Text.lowercase (Path.afterDot file.name) ∈ ["js", "jsx", "ts", "tsx"]) ∧
      ∀ graph, result = .ok graph → (files.map (·.path)).Nodup →
        (∀ file ∈ files, Path.Plain file.path) →
          (∀ file ∈ files, Text.lowercase (Path.afterDot file.name) ∉ ["js", "jsx", "ts", "tsx"] →
            graph.ShowsOpaque file.path file.size) ∧
          (∀ file error, (file, .error error) ∈ recorded.2.2 → graph.ShowsOpaque file.path 0) ∧
          ∀ file bytes error, (file, .ok bytes) ∈ recorded.2.2 →
            parse (Text.decodeLossy bytes) = .error error →
              graph.ShowsOpaque file.path
                (UInt64.ofNat ((Text.decodeLossy bytes).toList.count '\n' + 1)) := by
  intro files result recorded
  obtain ⟨record, hrun, hasked, hfrom⟩ := run_recorded parse fetcher config tree state
  have hrecord : recorded.2.2 = record := congrArg (·.2.2) hrun
  have hscript : ∀ file : Entry, file.hasScriptName =
      decide (Text.lowercase (Path.afterDot file.name) ∈ ["js", "jsx", "ts", "tsx"]) :=
    fun file => List.contains_eq_mem _ _
  have hnamed : ∀ request ∈ record, request.1.hasScriptName := fun request hrequest =>
    (List.mem_filter.1 (hasked ▸ List.mem_map_of_mem hrequest)).2
  have hok : files ≠ [] → ∃ graph, result = .ok graph := fun hfiles =>
    ⟨_, run_eq_ok hfiles htime⟩
  have hempty : files = [] → result = .error .emptyTree := by
    intro hfiles
    change ((run parse config fetcher tree).run state).1 = _
    rw [run_eq]
    exact if_pos (List.isEmpty_iff.2 hfiles)
  rw [hrecord]
  refine ⟨⟨fun herror => ?_, hempty⟩, hok, congrArg (·.1) hrun, congrArg (·.2.1) hrun, ?_,
    fun graph hgraph hnodup hplain => ⟨fun file hfile hother => ?_, fun file error hfile => ?_,
      fun file bytes error hfile hparse => ?_⟩⟩
  · by_contra hfiles
    obtain ⟨graph, hgraph⟩ := hok hfiles
    rw [hgraph] at herror
    cases herror
  · rw [hasked]
    exact List.filter_congr fun file _ => hscript file
  · have hnone : ¬ file.hasScriptName := by rwa [hscript, decide_eq_true_iff]
    exact showsOpaque_of_run hgraph hnodup hplain (opaqueFile_mem_outlines hfile hnone)
  · have houtline := hfrom _ hfile
    rw [outlineFrom, if_pos (hnamed _ hfile)] at houtline
    exact showsOpaque_of_run hgraph hnodup hplain houtline
  · have houtline := hfrom _ hfile
    rw [outlineFrom, if_pos (hnamed _ hfile), outlineOfFetched, outlineOfBytes, Outline.ofSource,
      hparse] at houtline
    exact showsOpaque_of_run hgraph hnodup hplain houtline

def Sample.mixedFiles : FileTree := .file "logo.svg" 12 :: Sample.files

theorem run_mixed_degrades : ∃ graph,
    ((run (fun _ => .error default) {} (Sample.failing "lib/b.js") Sample.mixedFiles).run ()).1 =
        .ok graph ∧
      graph.ShowsOpaque "logo.svg" 12 ∧ graph.ShowsOpaque "lib/b.js" 0 ∧
      graph.ShowsOpaque "lib/a.js" 1 := by
  have htime : ∀ seconds, ((run (fun _ => .error default) {} (Sample.failing "lib/b.js")
      Sample.mixedFiles).run ()).1 ≠ .error (.timedOut seconds) := run_ne_timedOut rfl
  obtain ⟨-, hok, -, -, -, hgraph⟩ := run_degrades (fun _ => .error default) {}
    (Sample.failing "lib/b.js") Sample.mixedFiles () htime
  obtain ⟨graph, hrun⟩ := hok (by decide +kernel)
  obtain ⟨hother, hmissing, hbroken⟩ := hgraph graph hrun (by decide +kernel) (by decide +kernel)
  have hlines :
      UInt64.ofNat ((Text.decodeLossy Sample.source.toUTF8).toList.count '\n' + 1) = 1 := by
    decide +kernel
  refine ⟨graph, hrun, ?_, ?_, ?_⟩
  · exact hother (.file "logo.svg" 12) (List.mem_of_getElem? (i := 0) rfl) (by decide +kernel)
  · exact hmissing (.file "lib/b.js" 57) ⟨"gone"⟩ (List.mem_of_getElem? (i := 1) rfl)
  · rw [← hlines]
    exact hbroken (.file "lib/a.js" 57) _ default (List.mem_of_getElem? (i := 0) rfl) rfl

end Analysis

end CodeGraph
