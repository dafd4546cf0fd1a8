import CodeGraph.Proofs.Analysis.Assembly
import CodeGraph.Proofs.Host.Agreement
import CodeGraph.Analysis.Run

/-! Trees without scripts: nothing is fetched for them, and the nodes of their graphs are their
files. -/
namespace CodeGraph.Analysis

open World

def plainOutline (file : Entry) : Outline := .opaqueFile file.path file.size .notScript

variable {parse : Parse} {config : Config} {tree : FileTree} {disk : Disk} {files : List Entry}
  {fetcher : Fetcher (StateM World)}

theorem mapM_outlineOf_of_noScript {scope : ComplexityScope}
    (h : ∀ file ∈ files, file.hasScriptName = false) :
    files.mapM (outlineOf parse scope fetcher) = pure (files.map plainOutline) := by
  induction files with
  | nil => rfl
  | cons file rest ih =>
    have hrest := ih fun other hother => h other (List.mem_cons_of_mem _ hother)
    have hfile : outlineOf parse scope fetcher file = pure (plainOutline file) := by
      rw [outlineOf, h file List.mem_cons_self]
      rfl
    rw [List.mapM_cons, hfile, hrest]
    rfl

variable (parse fetcher disk) in
/-- A tree without scripts is analysed at once, however little time there is. -/
theorem steady_run_of_noScript (hfiles : (tree.flatten config.maxDepth).files = files)
    (hne : files ≠ []) (h : ∀ file ∈ files, file.hasScriptName = false) :
    Steady disk (run parse config fetcher tree)
      (.ok (graphOf config.health (tree.flatten config.maxDepth).paths
        (files.map plainOutline))) := by
  have hempty : ¬ files.isEmpty := by simpa using hne
  have hwait : (files.map plainOutline).any (mustWait fetcher.waits) = false := by
    rw [List.any_map, List.any_eq_false]
    exact fun file _ => Bool.false_ne_true
  unfold run
  dsimp only
  rw [hfiles, if_neg hempty, mapM_outlineOf_of_noScript h, pure_bind, overrun?, hwait,
    if_neg Bool.false_ne_true, pure_bind]
  exact .pure _

theorem ids_graphOf_plainOutline (policy : HealthPolicy) (paths : PathTable) (files : List Entry) :
    (graphOf policy paths (files.map plainOutline)).ids = (files.map (·.path)).eraseDups := by
  rw [graphOf, Graph.ids_assemble, Graph.gather, Graph.ids_ofParts, List.map_map]
  have hnodes : ((files.map (ResolvedOutline.ofOutline paths ∘ plainOutline)).flatMap
      (·.nodes)).map (·.id) = files.map (·.path) := by
    induction files with
    | nil => rfl
    | cons file rest ih =>
      rw [List.map_cons, List.flatMap_cons, List.map_append, ih]
      rfl
  have hedges : (files.map (ResolvedOutline.ofOutline paths ∘ plainOutline)).flatMap
      (·.edges) = [] := by
    rw [List.flatMap_map]
    exact List.flatMap_eq_nil_iff.2 fun file _ => rfl
  rw [hnodes, hedges, List.flatMap_nil, List.append_nil]

end CodeGraph.Analysis
