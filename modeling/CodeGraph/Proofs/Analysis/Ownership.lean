import CodeGraph.Proofs.Analysis.Assembly
import CodeGraph.Proofs.Graph.Identifier

/-! Ownership of ids. As long as the paths of files are plain, nodes of one id are of one kind and
belong to one file, so what replaces a node is of its kind and has its owner. -/
namespace CodeGraph

namespace ResolvedOutline

variable {file other : ResolvedOutline} {node same : Node}

theorem kind_eq_and_owner_eq (hfile : Path.Plain file.outline.file)
    (hother : Path.Plain other.outline.file) (hnode : node ∈ file.nodes)
    (hsame : same ∈ other.nodes) (hid : node.id = same.id) : node.kind = same.kind ∧ node.owner = same.owner := by
  rcases mem_nodes.1 hnode with rfl | ⟨type, -, rfl⟩ | ⟨function, -, rfl⟩ <;>
    rcases mem_nodes.1 hsame with rfl | ⟨type', -, rfl⟩ | ⟨function', -, rfl⟩
  · exact ⟨rfl, hid⟩
  · exact absurd hid.symm (Node.typeId_ne_path hfile)
  · exact absurd hid.symm (Node.functionId_ne_path hfile)
  · exact absurd hid (Node.typeId_ne_path hother)
  · exact ⟨rfl, ((Node.typeId_inj hfile hother).1 hid).1⟩
  · exact absurd hid (Node.typeId_ne_functionId hfile hother)
  · exact absurd hid (Node.functionId_ne_path hother)
  · exact absurd hid.symm (Node.typeId_ne_functionId hother hfile)
  · exact ⟨rfl, ((Node.functionId_inj hfile hother).1 hid).1⟩

end ResolvedOutline

namespace Graph

variable {files : List ResolvedOutline} {node same : Node}

/-- Whether some node has an id, a kind and an owner. -/
def Declares (graph : Graph) (id : String) (kind : NodeKind) (owner : String) : Prop :=
  ∃ node ∈ graph.nodes, node.id = id ∧ node.kind = kind ∧ node.owner = owner

theorem kind_eq_and_owner_eq_of_mem (hplain : ∀ file ∈ files, Path.Plain file.outline.file)
    (hnode : node ∈ files.flatMap (·.nodes)) (hsame : same ∈ files.flatMap (·.nodes))
    (hid : node.id = same.id) : node.kind = same.kind ∧ node.owner = same.owner := by
  obtain ⟨file, hfile, hnode⟩ := List.mem_flatMap.1 hnode
  obtain ⟨other, hother, hsame⟩ := List.mem_flatMap.1 hsame
  exact ResolvedOutline.kind_eq_and_owner_eq (hplain file hfile) (hplain other hother) hnode hsame
    hid

/-- What a file declares is there in the end, though another node may stand for it. -/
theorem declares_assemble (policy : HealthPolicy) {file : ResolvedOutline}
    (hplain : ∀ file ∈ files, Path.Plain file.outline.file) (hfile : file ∈ files)
    (hmem : node ∈ file.nodes) :
    (assemble policy files).Declares node.id node.kind node.owner := by
  have hnode : node ∈ files.flatMap (·.nodes) := List.mem_flatMap.2 ⟨file, hfile, hmem⟩
  have hsome : ((files.flatMap (·.nodes)).reverse.find? (·.id = node.id)).isSome := by
    rw [List.find?_isSome]
    exact ⟨node, List.mem_reverse.2 hnode, by simp⟩
  obtain ⟨last, hlast⟩ := Option.isSome_iff_exists.1 hsome
  have hid : last.id = node.id := by simpa using List.find?_some hlast
  rw [← hid] at hlast
  obtain ⟨hkind, howner⟩ := kind_eq_and_owner_eq_of_mem hplain (mem_of_find? hlast) hnode hid
  refine ⟨(gather files).finished policy last, mem_assemble.2 ⟨last, ?_, rfl⟩, ?_, ?_, ?_⟩
  · exact mem_ofParts.2 (.inl hlast)
  · rw [id_finished, hid]
  · rw [kind_finished, hkind]
  · rw [owner_finished, howner]

end Graph

end CodeGraph
