import CodeGraph.Proofs.Analysis.Assembly

/-! The order of files. Graphs that hold the same nodes and the same edges finish their nodes alike,
and where no two files give a node of one id, the nodes that are kept do not depend on which file
comes first. -/
namespace CodeGraph

namespace Graph

variable {graph other : Graph} {node : Node} {id : String}

theorem node?_eq_some_iff (hids : graph.ids.Nodup) :
    graph.node? id = some node ↔ node ∈ graph.nodes ∧ node.id = id := by
  unfold node?
  constructor
  · intro h
    exact ⟨List.mem_of_find?_eq_some h, by simpa using List.find?_some h⟩
  · rintro ⟨hnode, rfl⟩
    obtain ⟨found, hfound⟩ : ∃ found, graph.nodes.find? (·.id = node.id) = some found := by
      rw [← Option.isSome_iff_exists, List.find?_isSome]
      exact ⟨node, hnode, by simp⟩
    have hid : found.id = node.id := by simpa using List.find?_some hfound
    rw [hfound, eq_of_id_eq hids (List.mem_of_find?_eq_some hfound) hnode hid]

namespace Reordered

theorem ids (h : Reordered graph other) : graph.ids.Perm other.ids := h.nodes.map _

/-- An id stands for the same node, whatever the order. -/
theorem node?_eq (h : Reordered graph other) (hids : graph.ids.Nodup) (id : String) :
    graph.node? id = other.node? id := by
  refine Option.ext fun node => ?_
  rw [node?_eq_some_iff hids, node?_eq_some_iff (h.ids.nodup_iff.1 hids), h.nodes.mem_iff]

theorem finished_eq (h : Reordered graph other) (policy : HealthPolicy) :
    graph.finished policy = other.finished policy := by
  funext node
  unfold finished
  rw [h.rolledUp_eq, h.scored_eq]

theorem mapNodes_finished (h : Reordered graph other) (policy : HealthPolicy) :
    Reordered (graph.mapNodes (graph.finished policy))
      (other.mapNodes (other.finished policy)) := by
  rw [h.finished_eq policy]
  exact h.mapNodes _

end Reordered

end Graph

namespace ResolvedOutline

def ids (file : ResolvedOutline) : List String := file.nodes.map (·.id)

/-- Files of which no two different ones have a node of the same id. -/
def Apart (files : List ResolvedOutline) : Prop :=
  ∀ file ∈ files, ∀ other ∈ files, file ≠ other → file.ids.Disjoint other.ids

variable {files others : List ResolvedOutline} {node : Node}

theorem Apart.of_pairwise (h : files.Pairwise fun file other => file.ids.Disjoint other.ids) :
    Apart files := by
  have : Std.Symm fun file other : ResolvedOutline => file.ids.Disjoint other.ids :=
    ⟨fun _ _ hdisjoint => hdisjoint.symm⟩
  intro file hfile other hother hne
  exact h.forall hfile hother hne

theorem Apart.of_perm (h : Apart files) (hperm : files.Perm others) : Apart others :=
  fun file hfile other hother =>
    h file (hperm.mem_iff.2 hfile) other (hperm.mem_iff.2 hother)

theorem mem_ids_of_find? {file : ResolvedOutline} {found : Node} {id : String}
    (h : file.nodes.reverse.find? (·.id = id) = some found) : id ∈ file.ids := by
  have hid : found.id = id := by simpa using List.find?_some h
  exact hid ▸ List.mem_map_of_mem (List.mem_reverse.1 (List.mem_of_find?_eq_some h))

/-- Of files that are apart, the one that has a node of an id has the last one. -/
theorem Apart.find?_eq_some_iff (h : Apart files) (id : String) :
    (files.flatMap (·.nodes)).reverse.find? (·.id = id) = some node ↔
      ∃ file ∈ files, file.nodes.reverse.find? (·.id = id) = some node := by
  rw [List.reverse_flatMap, List.find?_flatMap]
  change files.reverse.findSome? (fun file => file.nodes.reverse.find? (·.id = id)) = some node ↔ _
  constructor
  · intro hfind
    obtain ⟨file, hfile, hnode⟩ := List.exists_of_findSome?_eq_some hfind
    exact ⟨file, List.mem_reverse.1 hfile, hnode⟩
  · rintro ⟨file, hfile, hnode⟩
    cases hfind : files.reverse.findSome? fun file => file.nodes.reverse.find? (·.id = id) with
    | none =>
      rw [List.findSome?_eq_none_iff] at hfind
      rw [hfind file (List.mem_reverse.2 hfile)] at hnode
      cases hnode
    | some found =>
      obtain ⟨other, hother, hfound⟩ := List.exists_of_findSome?_eq_some hfind
      have hsame : other = file := by
        by_contra hne
        exact h other (List.mem_reverse.1 hother) file hfile hne (mem_ids_of_find? hfound)
          (mem_ids_of_find? hnode)
      rw [hsame, hnode] at hfound
      exact hfound.symm

end ResolvedOutline

namespace Graph

open ResolvedOutline (Apart)

variable {files others : List ResolvedOutline} {node : Node}

theorem mem_gather_of_perm (h : Apart files) (hperm : files.Perm others) :
    node ∈ (gather files).nodes ↔ node ∈ (gather others).nodes := by
  have hnodes := hperm.flatMap_right (·.nodes)
  have hedges := hperm.flatMap_right (·.edges)
  unfold gather
  rw [mem_ofParts, mem_ofParts, h.find?_eq_some_iff, (h.of_perm hperm).find?_eq_some_iff]
  simp only [hperm.mem_iff, hnodes.mem_iff, hedges.mem_iff]

theorem reordered_gather (h : Apart files) (hperm : files.Perm others) :
    Reordered (gather files) (gather others) := by
  have hfiles : (gather files).nodes.Nodup := (nodup_ids_ofParts _ _).of_map _
  have hothers : (gather others).nodes.Nodup := (nodup_ids_ofParts _ _).of_map _
  constructor
  · exact (List.perm_ext_iff_of_nodup hfiles hothers).2 fun node => mem_gather_of_perm h hperm
  · rw [gather, gather, edges_ofParts, edges_ofParts]
    exact hperm.flatMap_right _

/-- Where no two files have a node of one id, the order of the files decides on nothing but the
order of the nodes and edges: each id stands for the same node, and the edges are the same. -/
theorem assemble_reordered (policy : HealthPolicy) (h : Apart files) (hperm : files.Perm others) :
    Reordered (assemble policy files) (assemble policy others) ∧
      ∀ id, (assemble policy files).node? id = (assemble policy others).node? id := by
  have hreordered : Reordered (assemble policy files) (assemble policy others) := by
    rw [assemble_eq, assemble_eq]
    exact (reordered_gather h hperm).mapNodes_finished policy
  exact ⟨hreordered, hreordered.node?_eq (nodup_ids_assemble policy files)⟩

/-- One of two files that import one another. It names a function twice and imports a package. -/
def cart : ResolvedOutline where
  outline :=
    { Outline.opaqueFile "cart.js" 9 (.parsed .plain) with
      imports := ["react", "./shop"]
      functions := [⟨"sum", 2⟩, ⟨"sum", 5⟩] }
  imports := [.outside "react", .inside "shop.js"]

def shop : ResolvedOutline where
  outline :=
    { Outline.opaqueFile "shop.js" 7 (.parsed .plain) with
      imports := ["./cart"]
      types := [⟨"Shop", ["open"], none⟩] }
  imports := [.inside "cart.js"]

theorem apart_cart_shop : Apart [cart, shop] :=
  .of_pairwise (List.pairwise_pair.2 (List.disjoint_left.2 (by decide)))

theorem assemble_cart_shop_reordered :
    (Reordered (assemble .first [cart, shop]) (assemble .first [shop, cart]) ∧
      ∀ id, (assemble .first [cart, shop]).node? id = (assemble .first [shop, cart]).node? id) ∧
    (assemble .first [cart, shop]).ids ≠ (assemble .first [shop, cart]).ids := by
  refine ⟨assemble_reordered .first apart_cart_shop (.swap shop cart []), ?_⟩
  rw [ids_assemble, ids_assemble, gather, gather, ids_ofParts, ids_ofParts]
  decide

end Graph

end CodeGraph
