import CodeGraph.Proofs.Graph.Json
import CodeGraph.Proofs.Repository.Metadata
import CodeGraph.Proofs.Tree.Json

/-! What is exchanged as JSON, trees, graphs and what is known of repositories, is read back as it
was. -/
namespace CodeGraph

open Json (Order)

namespace Json.Decode

theorem optional_ofOption (text? : Option String) (depth : Nat) :
    optional string depth (ofOption text?) = .ok text? := by
  cases text? <;> rfl

end Json.Decode

namespace Repository

theorem Contributor.decode_arranged (contributor : Contributor) (order : Order) (depth : Nat) :
    decode (depth + 1) (contributor.toJson.arranged order) = .ok contributor := by
  rw [toJson, Json.arranged_ofMembers]
  cases order <;>
    simp [decode, Json.arrangeMembers, Dictionary.place, Json.Decode.record_ofMembers,
      Json.Decode.recordMembers, draftFields, Json.Decode.string, Json.Decode.required, bind,
      Except.bind, pure, Except.pure, -String.lt_iff_ltb]

/-- A license is kept as its name alone, also if that is the one that stands for none. -/
theorem License.decode_ofOption (license? : Option String) (depth : Nat) :
    decode depth (.ofOption license?) = .ok license? := by
  cases license? with
  | none => simp [decode, Json.ofOption]
  | some name => simp [decode, Json.ofOption, Json.Decode.any, bind, Except.bind, pure, Except.pure]

namespace Metadata

theorem arranged_languagesToJson (languages : Dictionary UInt64) (order : Order) :
    (languagesToJson languages).arranged order = languagesToJson languages := by
  have hnumbers : (languages.entries.map fun entry => (entry.1, Json.ofNat entry.2.toNat)).map
      (fun member => (member.1, member.2.arranged order)) =
        languages.entries.map fun entry => (entry.1, Json.ofNat entry.2.toNat) := by
    simp
  have hascending : (languages.entries.map fun entry =>
      (entry.1, Json.ofNat entry.2.toNat)).Pairwise (·.1 < ·.1) :=
    List.pairwise_map.2 languages.ascending
  rw [languagesToJson, Json.arranged_ofMembers, hnumbers, Json.arrangeMembers_of_ascending hascending]

theorem decodeLanguages_toJson (languages : Dictionary UInt64) (depth : Nat) :
    decodeLanguages (depth + 1) (languagesToJson languages) = .ok languages := by
  have hmembers : Json.Decode.members (Json.Decode.uint64 depth)
      (languages.entries.map fun entry => (entry.1, .ofNat entry.2.toNat)) =
        .ok languages.entries := by
    rw [Json.Decode.members_of_forall (fun size => .ofNat size.toNat) id fun entry _ =>
      Json.Decode.uint64_ofNat entry.2 depth]
    exact congrArg Except.ok (List.map_id _)
  unfold decodeLanguages languagesToJson Json.ofMembers
  rw [Json.Decode.entries, hmembers]
  exact congrArg Except.ok languages.ofList_entries

theorem decode_arranged (metadata : Metadata) (order : Order) (depth : Nat) :
    decode (depth + 3) (metadata.toJson.arranged order) = .ok metadata := by
  have hlanguages := decodeLanguages_toJson metadata.languages (depth + 1)
  have hcontributors : Json.Decode.list Contributor.decode (depth + 2)
      ((Json.ofList (metadata.contributors.map (·.toJson))).arranged order) =
        .ok metadata.contributors :=
    Json.Decode.list_arranged order _ fun contributor _ => contributor.decode_arranged order depth
  rw [toJson, Json.arranged_ofMembers]
  cases order <;>
    simp [decode, Json.arrangeMembers, Dictionary.place, Json.Decode.record_ofMembers,
      Json.Decode.recordMembers, draftFields, Json.Decode.string, Json.Decode.bool,
      Json.Decode.required, Json.Decode.optional_ofOption, License.decode_ofOption,
      arranged_languagesToJson, hlanguages, hcontributors, bind, Except.bind, pure, Except.pure,
      -String.lt_iff_ltb]

end Metadata

end Repository

/-- Trees, graphs and what is known of repositories are read back from the JSON that they are written
as, whether members stand as they were written or by name, wherever enough containers may be
entered: two for each level of a tree, four for a graph, and three for what is known. -/
theorem decode_exchanged (order : Order) (depth : Nat) :
    (∀ tree : FileTree, FileTree.decode (depth + 2 * Entry.levelsOf tree + 1)
      (tree.toJson.arranged order) = .ok tree) ∧
    (∀ graph : Graph, Graph.decode (depth + 4) (graph.toJson.arranged order) = .ok graph) ∧
    ∀ metadata : Repository.Metadata,
      Repository.Metadata.decode (depth + 3) (metadata.toJson.arranged order) = .ok metadata :=
  ⟨fun tree => tree.decode_arranged order depth, fun graph => graph.decode_arranged order depth,
    fun metadata => metadata.decode_arranged order depth⟩

end CodeGraph
