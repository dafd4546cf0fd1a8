import CodeGraph.Proofs.Analysis.Run
import CodeGraph.Proofs.Analysis.Assembly
import CodeGraph.Proofs.Outline.Closed
import CodeGraph.Proofs.Syntax.Scope

/-! Graphs by scope. The exclusive scope gives the graph of the inclusive one with functions, and thus
files, that are at most as complex; nothing else depends on the scope but the health of files. That
complexity is no greater holds as long as none is too great to be told, so it stands under a condition
here that all relations hand on. -/
namespace CodeGraph

variable {few : Prop}

/-- The same function, at most as complex if the condition holds. -/
structure FunctionOutline.Simpler (few : Prop) (function twin : FunctionOutline) : Prop where
  name : function.name = twin.name
  complexity : few → function.complexity ≤ twin.complexity

theorem FunctionOutline.Simpler.refl (function : FunctionOutline) : function.Simpler few function :=
  ⟨rfl, fun _ => UInt32.le_refl _⟩

/-- The same finding, up to the complexity of a function. -/
inductive Finding.Simpler (few : Prop) : Finding → Finding → Prop
  | refl (finding : Finding) : Simpler few finding finding
  | function {outline twin : FunctionOutline} (simpler : outline.Simpler few twin) :
      Simpler few (.function outline) (.function twin)

/-- The same outline, up to the complexity of functions. -/
structure Outline.Simpler (few : Prop) (outline twin : Outline) : Prop where
  same : { outline with functions := twin.functions } = twin
  functions : List.Forall₂ (FunctionOutline.Simpler few) outline.functions twin.functions

/-- The same node, at most as complex if the condition holds. Only files and functions differ in
complexity, and only files in health. -/
structure Node.Simpler (few : Prop) (node twin : Node) : Prop where
  id : node.id = twin.id
  label : node.label = twin.label
  kind : node.kind = twin.kind
  owner : node.owner = twin.owner
  lines : node.lines = twin.lines
  methods : node.methods = twin.methods
  complexity : few → node.complexity ≤ twin.complexity
  health : node.kind ≠ .file → node.health? = twin.health?
  same : node.kind = .type ∨ node.kind = .package → node = twin

namespace Finding

open SyntaxTree

variable {source : String} {scope : ComplexityScope}

/-- What declares no function is found to be the same in both scopes. -/
theorem Site.findings_of_declared?_eq_none {site : Site} (h : site.declared? source = none)
    (scope other : ComplexityScope) :
    site.findings source scope = site.findings source other := by
  unfold findings
  rw [h]

theorem Site.forall₂_findings {site : Site}
    (h : few → ∀ function ∈ site.tree.preorder, (Construct.of function).isFunction →
      function.decisions .inclusive < 2 ^ 32 - 1) :
    List.Forall₂ (Simpler few) (site.findings source scope) (site.findings source .inclusive) := by
  cases hdeclared : site.declared? source with
  | none =>
    rw [findings_of_declared?_eq_none hdeclared scope .inclusive]
    exact List.forall₂_same.2 fun finding _ => .refl finding
  | some declared =>
    obtain ⟨name, function⟩ := declared
    obtain ⟨hmem, hfunction⟩ := isFunction_of_declared? hdeclared
    rw [findings_of_declared? hdeclared, findings_of_declared? hdeclared]
    exact .cons (.function ⟨rfl, fun hfew =>
      SyntaxTree.complexity_le_inclusive scope (h hfew function hmem hfunction)⟩) .nil

/-- What is found at each of some sites in two scopes, one site after the other. -/
theorem Site.forall₂_walk {site : Site}
    (h : few → ∀ function ∈ site.tree.preorder, (Construct.of function).isFunction →
      function.decisions .inclusive < 2 ^ 32 - 1) :
    List.Forall₂ (Simpler few) (site.walk source scope) (site.walk source .inclusive) := by
  induction site using Site.walk.induct source with
  | case1 site ih =>
    have hchildren : List.Forall₂ (fun child twin => child = twin ∧ child ∈ site.children source)
        (site.children source) (site.children source) :=
      List.forall₂_same.2 fun child hchild => ⟨rfl, hchild⟩
    have hbelow : List.Forall₂ (Simpler few)
        ((site.children source).flatMap (walk source scope))
        ((site.children source).flatMap (walk source .inclusive)) := by
      refine List.rel_flatMap hchildren ?_
      rintro child _ ⟨rfl, hchild⟩
      exact ih ⟨child, hchild⟩ fun hfew function hfunction => h hfew function
        (mem_preorder_of_mem_children (tree_mem_of_mem_children hchild) hfunction)
    rw [walk_eq, walk_eq]
    exact List.rel_append (forall₂_findings h) hbelow

theorem forall₂_ofTree {tree : SyntaxTree}
    (h : few → ∀ function ∈ tree.preorder, (Construct.of function).isFunction →
      function.decisions .inclusive < 2 ^ 32 - 1) :
    List.Forall₂ (Simpler few) (ofTree source scope tree) (ofTree source .inclusive tree) := by
  rw [ofTree_eq, ofTree_eq]
  exact Site.forall₂_walk h

/-- A choice among findings that does not look at functions chooses the same. -/
theorem filterMap_eq_of_simpler {α : Type} (choose : Finding → Option α)
    (hchoose : ∀ outline, choose (.function outline) = none) {found twin : List Finding}
    (h : List.Forall₂ (Simpler few) found twin) : found.filterMap choose = twin.filterMap choose := by
  induction h with
  | nil => rfl
  | @cons first other _ _ hfirst _ ih =>
    have hsame : choose first = choose other := by
      cases hfirst with
      | refl => rfl
      | function => rw [hchoose, hchoose]
    rw [List.filterMap_cons, List.filterMap_cons, hsame, ih]

theorem forall₂_functions {found twin : List Finding} (h : List.Forall₂ (Simpler few) found twin) :
    List.Forall₂ (FunctionOutline.Simpler few) (found.filterMap function?)
      (twin.filterMap function?) := by
  refine List.rel_filterMap ?_ h
  intro first other hfirst
  cases hfirst with
  | refl =>
    cases first with
    | function outline => exact .some (.refl outline)
    | _ => exact .none
  | function hsimpler => exact .some hsimpler

end Finding

namespace Outline

variable {scope : ComplexityScope}

theorem Simpler.refl (outline : Outline) : outline.Simpler few outline :=
  ⟨rfl, List.forall₂_same.2 fun function _ => .refl function⟩

theorem callEdges_congr {functions others : List FunctionOutline}
    (h : List.Forall₂ (FunctionOutline.Simpler few) functions others) (file : String)
    (sites : List CallSite) : callEdges file functions sites = callEdges file others sites := by
  -- calls are matched with functions by name, which both sides share
  have hany : ∀ name, functions.any (·.name = name) = others.any (·.name = name) := by
    intro name
    induction h with
    | nil => rfl
    | cons hfirst _ ih => rw [List.any_cons, List.any_cons, hfirst.name, ih]
  unfold callEdges
  simp only [hany]

theorem simpler_ofFindings {found others : List Finding}
    (h : List.Forall₂ (Finding.Simpler few) found others) (file : String) (lines : UInt64)
    (dialect : Dialect) :
    (ofFindings file lines dialect found).Simpler few (ofFindings file lines dialect others) := by
  have himports := Finding.filterMap_eq_of_simpler Finding.imported? (fun _ => rfl) h
  have htypes := Finding.filterMap_eq_of_simpler Finding.type? (fun _ => rfl) h
  have hsites := Finding.filterMap_eq_of_simpler Finding.call? (fun _ => rfl) h
  have hfunctions := Finding.forall₂_functions h
  have hcalls := callEdges_congr hfunctions file (found.filterMap Finding.call?)
  refine ⟨?_, hfunctions⟩
  change Outline.mk file lines (found.filterMap Finding.imported?)
    (found.filterMap Finding.type?) (others.filterMap Finding.function?)
    (inheritanceEdges file (found.filterMap Finding.type?))
    (callEdges file (found.filterMap Finding.function?) (found.filterMap Finding.call?))
    (.parsed dialect) = _
  rw [himports, htypes, hcalls, hsites]
  rfl

theorem simpler_ofParsed {parsed : ParsedSource} (file content : String)
    (h : few → ∀ function ∈ parsed.tree.preorder, (Construct.of function).isFunction →
      function.decisions .inclusive < 2 ^ 32 - 1) :
    (ofParsed scope file content parsed).Simpler few (ofParsed .inclusive file content parsed) :=
  simpler_ofFindings (Finding.forall₂_ofTree h) _ _ _

end Outline

namespace Node.Simpler

variable {node twin : Node}

theorem refl (node : Node) : node.Simpler few node :=
  ⟨rfl, rfl, rfl, rfl, rfl, rfl, fun _ => UInt32.le_refl _, fun _ => rfl, fun _ => rfl⟩

theorem function {outline other : FunctionOutline} (h : outline.Simpler few other) (path : String) :
    (Node.function path outline.name outline.complexity).Simpler few
      (Node.function path other.name other.complexity) := by
  rw [h.name]
  exact ⟨rfl, rfl, rfl, rfl, rfl, rfl, h.complexity, fun _ => rfl, nofun⟩

end Node.Simpler

namespace Graph

/-- The same edges, and the same nodes up to complexity and health. -/
structure Simpler (few : Prop) (graph twin : Graph) : Prop where
  nodes : List.Forall₂ (Node.Simpler few) graph.nodes twin.nodes
  edges : graph.edges = twin.edges

variable {graph twin : Graph} {node other : Node}

namespace Simpler

theorem ids (h : graph.Simpler few twin) : graph.ids = twin.ids := by
  have hids : List.Forall₂ Eq graph.ids twin.ids :=
    List.rel_map (fun _ _ hnode => hnode.id) h.nodes
  rwa [List.forall₂_eq_eq_eq] at hids

theorem put (h : graph.Simpler few twin) (hnode : node.Simpler few other) :
    (graph.put node).Simpler few (twin.put other) := by
  refine ⟨?_, by rw [edges_put, edges_put, h.edges]⟩
  unfold Graph.put
  rw [← h.ids, ← hnode.id]
  split_ifs
  · refine List.rel_map (fun old twin hold => ?_) h.nodes
    rw [hold.id]
    split_ifs
    · exact hnode
    · exact hold
  · exact List.rel_append h.nodes (.cons hnode .nil)

theorem mention (h : graph.Simpler few twin) (id : String) :
    (graph.mention id).Simpler few (twin.mention id) := by
  unfold Graph.mention
  rw [← h.ids]
  split_ifs
  · exact h
  · exact h.put (.refl _)

theorem connect (h : graph.Simpler few twin) (edge : Edge) :
    (graph.connect edge).Simpler few (twin.connect edge) := by
  have hends := (h.mention edge.source).mention edge.target
  exact ⟨hends.nodes, by rw [edges_connect, edges_connect, h.edges]⟩

theorem ofParts {nodes others : List Node} (h : List.Forall₂ (Node.Simpler few) nodes others)
    (edges : List Edge) : (Graph.ofParts nodes edges).Simpler few (Graph.ofParts others edges) := by
  have hnodes : (nodes.foldl Graph.put empty).Simpler few (others.foldl Graph.put empty) :=
    List.rel_foldl (fun _ _ hgraph _ _ hnode => hgraph.put hnode) ⟨.nil, rfl⟩ h
  unfold Graph.ofParts
  induction edges using List.reverseRecOn with
  | nil => exact hnodes
  | append_singleton edges edge ih =>
    rw [List.foldl_concat, List.foldl_concat]
    exact ih.connect edge

theorem ownedComplexity (h : graph.Simpler few twin) (hfew : few) (path : String) :
    graph.ownedComplexity path ≤ twin.ownedComplexity path := by
  unfold Graph.ownedComplexity
  refine List.Forall₂.sum_le_sum (List.rel_map (fun node other hnode => ?_)
    (List.rel_filter (fun node other hnode => ?_) h.nodes))
  · exact UInt32.le_iff_toNat_le.1 (hnode.complexity hfew)
  · dsimp only
    rw [hnode.kind, hnode.owner]

end Simpler

theorem boundedComplexity_mono {n m : Nat} (h : n ≤ m) :
    boundedComplexity n ≤ boundedComplexity m := by
  rw [UInt32.le_iff_toNat_le, toNat_boundedComplexity, toNat_boundedComplexity]
  omega

theorem Simpler.finished (h : graph.Simpler few twin) (policy : HealthPolicy)
    (hnode : node.Simpler few other) :
    (graph.finished policy node).Simpler few (twin.finished policy other) := by
  by_cases hkind : node.kind = .file
  · rw [finished_of_file policy hkind, finished_of_file policy (hnode.kind ▸ hkind)]
    refine ⟨hnode.id, hnode.label, hnode.kind, hnode.owner, hnode.lines, hnode.methods,
      fun hfew => ?_, fun hne => absurd hkind hne, ?_⟩
    · -- a file gets its own complexity and that of all it owns, part by part no more than its twin
      have hown := UInt32.le_iff_toNat_le.1 (hnode.complexity hfew)
      have howned := h.ownedComplexity hfew node.id
      rw [← hnode.id]
      exact boundedComplexity_mono (Nat.add_le_add hown howned)
    · rintro (htype | hpackage)
      · exact absurd (hkind.symm.trans htype) nofun
      · exact absurd (hkind.symm.trans hpackage) nofun
  · rw [finished_of_ne_file policy hkind, finished_of_ne_file policy (hnode.kind ▸ hkind)]
    exact hnode

end Graph

namespace ResolvedOutline

variable {outline twin : Outline}

theorem edges_ofOutline (h : outline.Simpler few twin) (paths : PathTable) :
    (ofOutline paths outline).edges = (ofOutline paths twin).edges := by
  rw [← h.same]
  rfl

theorem forall₂_nodes (h : outline.Simpler few twin) (paths : PathTable) :
    List.Forall₂ (Node.Simpler few) (ofOutline paths outline).nodes (ofOutline paths twin).nodes := by
  rw [← h.same]
  refine List.rel_append (List.forall₂_same.2 fun node _ => .refl node) ?_
  exact List.rel_map (fun _ _ hfunction => .function hfunction outline.file) h.functions

end ResolvedOutline

theorem Graph.Simpler.assemble {files others : List ResolvedOutline} (policy : HealthPolicy)
    (hnodes : List.Forall₂ (Node.Simpler few) (files.flatMap (·.nodes)) (others.flatMap (·.nodes)))
    (hedges : files.flatMap (·.edges) = others.flatMap (·.edges)) :
    (Graph.assemble policy files).Simpler few (Graph.assemble policy others) := by
  have hgather : (gather files).Simpler few (gather others) := by
    unfold gather
    rw [hedges]
    exact .ofParts hnodes _
  rw [assemble_eq, assemble_eq]
  exact ⟨List.rel_map (fun _ _ hnode => hgather.finished policy hnode) hgather.nodes,
    hgather.edges⟩

namespace Analysis

variable {σ : Type} {parse : Parse} {scope : ComplexityScope}

theorem simpler_graphOf {found others : List Outline}
    (h : List.Forall₂ (Outline.Simpler few) found others) (policy : HealthPolicy) (paths : PathTable) :
    (graphOf policy paths found).Simpler few (graphOf policy paths others) := by
  refine .assemble policy ?_ ?_
  · rw [List.flatMap_map, List.flatMap_map]
    exact List.rel_flatMap h fun outline twin hsimpler =>
      ResolvedOutline.forall₂_nodes hsimpler paths
  · rw [List.flatMap_map, List.flatMap_map]
    induction h with
    | nil => rfl
    | cons hfirst _ ih =>
      rw [List.flatMap_cons, List.flatMap_cons, ih, ResolvedOutline.edges_ofOutline hfirst]

theorem any_mustWait_congr {found others : List Outline}
    (h : List.Forall₂ (Outline.Simpler few) found others) (waits : Bool) :
    found.any (mustWait waits) = others.any (mustWait waits) := by
  induction h with
  | nil => rfl
  | @cons outline twin _ _ hfirst _ ih =>
    have hstatus : mustWait waits outline = mustWait waits twin := by
      rw [← hfirst.same]
      rfl
    rw [List.any_cons, List.any_cons, hstatus, ih]

/-- Whether no function of a source that a parser accepts has more decisions than can be told. -/
def Moderate (parse : Parse) : Prop :=
  ∀ content parsed, parse content = .ok parsed →
    ∀ function ∈ parsed.tree.preorder, (Construct.of function).isFunction →
      function.decisions .inclusive < 2 ^ 32 - 1

theorem simpler_outlineFrom (parse : Parse) (scope : ComplexityScope) (file : Entry)
    (answer : Except FetchError ByteArray) :
    (outlineFrom parse scope file answer).Simpler (Moderate parse)
      (outlineFrom parse .inclusive file answer) := by
  unfold outlineFrom
  split_ifs
  · cases answer with
    | error error => exact .refl _
    | ok bytes =>
      simp only [outlineOfFetched, outlineOfBytes, Outline.ofSource]
      cases hparse : parse (Text.decodeLossy bytes) with
      | error error => exact .refl _
      | ok parsed => exact Outline.simpler_ofParsed _ _ fun hfew => hfew _ parsed hparse
  · exact .refl _

/-- A script is fetched, and nothing else happens. -/
theorem state_outlineOf (parse : Parse) (scope : ComplexityScope) (fetcher : Fetcher (StateM σ))
    (file : Entry) (state : σ) : ((outlineOf parse scope fetcher file).run state).2 =
      if file.hasScriptName then ((fetcher.fetch file).run state).2 else state := by
  unfold outlineOf
  split_ifs <;> rfl

/-- All scopes fetch the same, so what is fetched next comes in the same state. -/
theorem state_mapM (parse : Parse) (scope other : ComplexityScope) (fetcher : Fetcher (StateM σ))
    (files : List Entry) (state : σ) :
    ((files.mapM (outlineOf parse scope fetcher)).run state).2 =
      ((files.mapM (outlineOf parse other fetcher)).run state).2 := by
  induction files generalizing state with
  | nil => rw [List.mapM_nil, List.mapM_nil]
  | cons file rest ih =>
    rw [Action.run_mapM_cons, Action.run_mapM_cons]
    dsimp only
    rw [state_outlineOf, state_outlineOf, ih]

theorem simpler_mapM (parse : Parse) (scope : ComplexityScope) (fetcher : Fetcher (StateM σ))
    (files : List Entry) (state : σ) :
    List.Forall₂ (Outline.Simpler (Moderate parse))
      ((files.mapM (outlineOf parse scope fetcher)).run state).1
      ((files.mapM (outlineOf parse .inclusive fetcher)).run state).1 := by
  induction files generalizing state with
  | nil => exact .nil
  | cons file rest ih =>
    rw [Action.run_mapM_cons, Action.run_mapM_cons]
    dsimp only
    rw [run_outlineOf, run_outlineOf, state_outlineOf, state_outlineOf]
    exact .cons (simpler_outlineFrom parse scope file _) (ih _)

/-- Runs with the one and the other scope fail alike. If they give graphs, the edges are the same,
and so are the nodes but for the complexity of functions and files and the health of files. Unless
some function has too many decisions, the exclusive scope makes nothing more complex. -/
theorem run_scopes (parse : Parse) (config : Config) (fetcher : Fetcher (StateM σ))
    (tree : FileTree) (state : σ) :
    let exclusive := ((run parse { config with scope := .exclusive } fetcher tree).run state).1
    let inclusive := ((run parse { config with scope := .inclusive } fetcher tree).run state).1
    (∃ error, exclusive = .error error ∧ inclusive = .error error ∧
        ((tree.flatten config.maxDepth).files = [] ∨
          ∃ seconds, config.timeout = some seconds ∧ error = .timedOut seconds)) ∨
      ∃ graph twin, exclusive = .ok graph ∧ inclusive = .ok twin ∧
        graph.Simpler (Moderate parse) twin := by
  have hfound : List.Forall₂ (Outline.Simpler (Moderate parse))
      ((outlines parse { config with scope := .exclusive } fetcher tree).run state).1
      ((outlines parse { config with scope := .inclusive } fetcher tree).run state).1 :=
    simpler_mapM parse .exclusive fetcher _ state
  have hstate : ((outlines parse { config with scope := .exclusive } fetcher tree).run state).2 =
      ((outlines parse { config with scope := .inclusive } fetcher tree).run state).2 :=
    state_mapM parse .exclusive .inclusive fetcher _ state
  have hlate : late? parse { config with scope := .exclusive } fetcher tree state =
      late? parse { config with scope := .inclusive } fetcher tree state := by
    rw [late?, late?, run_overrun?, run_overrun?, any_mustWait_congr hfound, hstate]
  have hgraph := simpler_graphOf hfound config.health (tree.flatten config.maxDepth).paths
  rw [run_eq, run_eq]
  dsimp only at hgraph ⊢
  rw [hlate]
  split_ifs with hempty
  · exact .inl ⟨_, rfl, rfl, .inl (List.isEmpty_iff.1 hempty)⟩
  · cases htime : late? parse { config with scope := .inclusive } fetcher tree state with
    | some seconds =>
      have htimeout := timeout_of_late?_eq htime
      exact .inl ⟨_, rfl, rfl, .inr ⟨seconds, htimeout, rfl⟩⟩
    | none => exact .inr ⟨_, _, rfl, rfl, hgraph⟩

namespace Sample

def parseNested : Parse := fun _ => .ok ⟨default, SyntaxTree.Sample.outer⟩

example : ((outlines parseNested { scope := .exclusive } fetcher files).run 0).1.map
      (·.functions) = [[⟨"<anonymous>", 2⟩], [⟨"<anonymous>", 2⟩]] ∧
    ((outlines parseNested { scope := .inclusive } fetcher files).run 0).1.map
      (·.functions) = [[⟨"<anonymous>", 4⟩], [⟨"<anonymous>", 4⟩]] := by
  decide +kernel

end Sample

theorem run_sample_scopes : ∃ graph twin,
    ((run Sample.parseNested { scope := .exclusive } Sample.fetcher Sample.files).run 0).1 =
        .ok graph ∧
      ((run Sample.parseNested { scope := .inclusive } Sample.fetcher Sample.files).run 0).1 =
        .ok twin ∧
      graph.edges = twin.edges ∧
      List.Forall₂ (fun node other => node.id = other.id ∧ node.complexity ≤ other.complexity)
        graph.nodes twin.nodes := by
  have hmoderate : Moderate Sample.parseNested := by
    intro content parsed hparse
    rw [← Except.ok.inj hparse]
    decide +kernel
  have hfiles : (Sample.files.flatten (some 3)).files ≠ [] := by decide +kernel
  rcases run_scopes Sample.parseNested {} Sample.fetcher Sample.files 0 with
    ⟨error, -, -, hempty | ⟨seconds, htimeout, -⟩⟩ | ⟨graph, twin, hgraph, htwin, hsimpler⟩
  · exact absurd hempty hfiles
  · cases htimeout
  · refine ⟨graph, twin, hgraph, htwin, hsimpler.edges, hsimpler.nodes.imp ?_⟩
    exact fun node other hnode => ⟨hnode.id, hnode.complexity hmoderate⟩

end Analysis

end CodeGraph
